import Mathlib.Data.List.Basic
import Provisioning.Context.Layer
import Provisioning.Proofs.Decode.Meaning
import Provisioning.Samples.Equipment

/-!
# The tags that reach a type

A type is registered under any text that `TypeName.problem?` finds nothing wrong with, and nodes of the type are tagged
with that text: as `!name`, or in full as `!tag:yaml.org,2002:name`. `TagRole.ofTag` reads the name off the tag
without knowing what is registered.

The full tag reaches every type name. The short one reaches those that do not begin like a core tag: of a name that
does, the beginning is taken for that of a full tag, and only the rest is asked for.
-/

namespace Provisioning

/-! ## Reading a tag -/

/-- The exclamation mark in front of a tag is no part of it. -/
theorem tagName_mark {tag : String} (h : tag ≠ "") : tagName ("!" ++ tag) = tag := by
  obtain ⟨c, cs, hcs⟩ : ∃ c cs, tag.toList = c :: cs := by
    cases hcs : tag.toList with
    | nil => exact absurd (String.toList_inj.1 hcs) h
    | cons c cs => exact ⟨c, cs, rfl⟩
  have hmark : ("!" ++ tag).toList = '!' :: c :: cs := by
    rw [String.toList_append, hcs]
    rfl
  rw [tagName, hmark]
  show String.ofList (c :: cs) = tag
  rw [← hcs, String.ofList_toList]

namespace TagRole

variable {tag rest : String}

theorem length_lt_length_append (rest : String) : rest.length < (corePrefix ++ rest).length := by
  rw [String.length_append]
  exact Nat.lt_add_of_pos_left (by decide)

theorem splitCore_append (rest : String) : splitCore (corePrefix ++ rest) = (true, rest) := by
  have hrest : corePrefix.toList.isPrefixOf? (corePrefix ++ rest).toList = some rest.toList :=
    List.isPrefixOf?_eq_some_iff_append_eq.2 String.toList_append.symm
  rw [splitCore, hrest]
  dsimp only
  rw [String.ofList_toList]

theorem splitCore_of_ne (h : ∀ rest, tag ≠ corePrefix ++ rest) : splitCore tag = (false, tag) := by
  rw [splitCore]
  split
  · rename_i rest hrest
    refine absurd (String.toList_inj.1 ?_) (h (String.ofList rest))
    rw [String.toList_append, String.toList_ofList]
    exact (List.isPrefixOf?_eq_some_iff_append_eq.1 hrest).symm
  · rfl

/-- Of a tag that begins like a core tag only the rest counts. -/
theorem ofTag_append (rest : String) :
    ofTag (corePrefix ++ rest) =
      if coreNames.contains rest then .core else if rest.toList.contains '.' then .type rest else .variant := by
  rw [ofTag, splitCore_append]
  rfl

theorem ofTag_of_ne (h : ∀ rest, tag ≠ corePrefix ++ rest) :
    ofTag tag = if tag.toList.contains '.' then .type tag else .variant := by
  rw [ofTag, splitCore_of_ne h]
  rfl

/-- No core tag could be a type name. -/
theorem not_contains_of_mem_coreNames : ∀ name ∈ coreNames, name.toList.contains '.' = false := by decide

end TagRole

namespace TypeName

variable {name : String}

theorem ne_empty_of_problem? (h : problem? name = none) : name ≠ "" := by
  rintro rfl
  cases h

theorem contains_point_of_problem? (h : problem? name = none) : name.toList.contains '.' = true := by
  have hnamespaced : isNamespaced name = true := by
    by_contra hnot
    rw [problem?, if_neg (ne_empty_of_problem? h)] at h
    split at h
    · cases h
    · rw [if_neg hnot] at h
      cases h
  rw [isNamespaced, Bool.and_eq_true, Bool.and_eq_true] at hnamespaced
  exact hnamespaced.1.1

end TypeName

/-! ## Looking it up -/

/-- A tag reaches a type name: it stands for that name, and wherever a node under the tag is met, at the root of a
document or below it, the name is looked up before anything else is. -/
structure Reaches (tag name : String) : Prop where
  role : TagRole.ofTag tag = .type name
  atRoot : ∀ (d : Decoder) (σ : Schema) (content : Tree),
    (Journal.lookups (d.decode σ (.tagged tag content)).events).head? =
      some (name, (d.context.resolve name).isSome)
  below : ∀ (s : Surroundings) (depth : Nat) (place : Place) (content : Tree), depth ≤ s.settings.maxDepth →
    (Journal.lookups (s.resolveNode depth place (.tagged tag content)).events).head? =
      some (name, (s.context.resolve name).isSome)

/-- What begins with looking a name up. -/
theorem head?_lookups_lookUp {α : Type} (s : Surroundings) (name : String) (place : Place)
    (f : Descriptor → Traced DecodeFailure α) :
    (Journal.lookups (s.lookUp name place >>= f).events).head? = some (name, (s.context.resolve name).isSome) := by
  cases hresolve : s.context.resolve name with
  | none =>
    have hmissed : s.lookUp name place =
        ⟨[.lookedUp name false], .error (.unresolved name place s.context.typeNames)⟩ := by
      rw [Surroundings.lookUp, hresolve]
    rw [hmissed]
    rfl
  | some d =>
    have hfound : s.lookUp name place = ⟨[.lookedUp name true], .ok d⟩ := by
      rw [Surroundings.lookUp, hresolve]
    rw [hfound]
    rfl

/-- What a tag stands for is what its nodes are looked up under. -/
theorem reaches_of_role {tag name : String} (h : TagRole.ofTag tag = .type name) : Reaches tag name where
  role := h
  atRoot d σ content := by
    have hroot : (Tree.tagged tag content).rootType? = some (name, content) := by rw [Tree.rootType?, h]
    rw [Decoder.decode, Decoder.run, Surroundings.resolveRoot_of_type hroot, Traced.bind_bind, Traced.bind_bind,
      Traced.events_bind_of_ok rfl]
    exact head?_lookups_lookUp (d.surroundings σ) name .root _
  below s depth place content hdepth := by
    have hchecked : s.checkDepth depth place = pure () := if_neg (Nat.not_lt.2 hdepth)
    rw [Surroundings.resolveNode, hchecked, h]
    exact head?_lookups_lookUp s name place _

theorem TagRole.ofTag_append_of_typeName {name : String} (hname : TypeName.problem? name = none) :
    ofTag (corePrefix ++ name) = .type name := by
  have hpoint := TypeName.contains_point_of_problem? hname
  have hother : coreNames.contains name = false := by
    rw [Bool.eq_false_iff]
    intro hcore
    have hnone := not_contains_of_mem_coreNames name (List.contains_iff_mem.1 hcore)
    exact Bool.noConfusion (hpoint.symm.trans hnone)
  rw [ofTag_append, hother, hpoint]
  rfl

/-- **What reaches a type name.** Every type name is reached by the full tag. The short tag reaches it exactly if the
name does not begin like a core tag; if it does, the short tag stands for whatever the rest of the name stands for,
which is never the name. -/
theorem typeName_reached {name : String} (hname : TypeName.problem? name = none) :
    Reaches (tagName ("!" ++ (TagRole.corePrefix ++ name))) name ∧
    (Reaches (tagName ("!" ++ name)) name ↔ ∀ rest, name ≠ TagRole.corePrefix ++ rest) ∧
    ∀ rest, name = TagRole.corePrefix ++ rest →
      TagRole.ofTag (tagName ("!" ++ name)) =
        if TagRole.coreNames.contains rest then .core
        else if rest.toList.contains '.' then .type rest else .variant := by
  have hnonempty := TypeName.ne_empty_of_problem? hname
  have hfull : TagRole.corePrefix ++ name ≠ "" := by
    intro hempty
    have hlonger := TagRole.length_lt_length_append name
    rw [hempty] at hlonger
    exact Nat.not_lt_zero _ hlonger
  rw [tagName_mark hnonempty, tagName_mark hfull]
  refine ⟨reaches_of_role (TagRole.ofTag_append_of_typeName hname), ⟨fun hreaches rest hrest => ?_, fun hother => ?_⟩,
    ?_⟩
  · -- the rest is shorter than the name, so the name is not asked for
    have hrole := hreaches.role
    have hne : rest ≠ name := by
      intro hsame
      have hlonger := TagRole.length_lt_length_append rest
      rw [← hrest, hsame] at hlonger
      exact Nat.lt_irrefl _ hlonger
    rw [hrest, TagRole.ofTag_append, ← hrest] at hrole
    split at hrole
    · cases hrole
    · split at hrole
      · exact hne (TagRole.type.inj hrole)
      · cases hrole
  · refine reaches_of_role ?_
    rw [TagRole.ofTag_of_ne hother, if_pos (TypeName.contains_point_of_problem? hname)]
  · rintro rest rfl
    exact TagRole.ofTag_append rest

/-- Disks are reached by both tags of their type name. -/
theorem typeName_reached_disk :
    TypeName.problem? "test.Disk" = none ∧ Reaches (tagName "!tag:yaml.org,2002:test.Disk") "test.Disk" ∧
      Reaches (tagName "!test.Disk") "test.Disk" := by
  have hname : TypeName.problem? "test.Disk" = none := by decide
  obtain ⟨hfull, hshort, -⟩ := typeName_reached hname
  refine ⟨hname, hfull, hshort.2 fun rest hrest => ?_⟩
  have hbegins : TagRole.corePrefix.toList <+: "test.Disk".toList := by
    rw [hrest, String.toList_append]
    exact List.prefix_append _ _
  exact absurd hbegins (by decide)

/-- A disk under a name that begins like a core tag can be registered, but the node under the short tag of that name is
taken for a variant: nothing is looked up, and the node stays as it is. -/
theorem registered_name_taken_for_variant :
    let name := "tag:yaml.org,2002:Disk"
    let content := Tree.map [(.text "size_gb", .number (.integer 1))]
    TypeName.problem? name = none ∧
    ∃ layer, Layer.build [⟨name, Samples.disk⟩] none = .ok layer ∧
      layer.toContext.resolve name = some ⟨name, Samples.disk⟩ ∧
      TagRole.ofTag (tagName ("!" ++ name)) = .variant ∧
      let decoded := (Decoder.any layer.toContext).decode Samples.schema (.tagged (tagName ("!" ++ name)) content)
      Journal.lookups decoded.events = [] ∧ decoded.outcome = .ok (.untyped (.tagged name content)) := by
  refine ⟨by decide, _, rfl, by decide, by decide, by decide, by rfl⟩

end Provisioning
