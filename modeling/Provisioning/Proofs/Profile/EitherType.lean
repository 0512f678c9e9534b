import Provisioning.Proofs.Profile.Instances
import Provisioning.Proofs.Schema.FlatRecords

/-!
# Profiles under either type name

There are two types of profile documents, and a document may name either of them, or an alias, whichever it is decoded
as. If it names the root type, the instance that its content was built into is the result; if it names the other one,
what that build has left of the content is built once more.

The second build makes the same instance, because profiles are flat records (`Passes.again_iff`). So the shortcut cannot
be told from the long way (`resultsIn_iff_again`), and the long way depends on nothing but the shape of the root type.
-/

namespace Provisioning

namespace Surroundings

variable {s : Surroundings} {shape : Shape} {node rest : Tree} {x y : Instance} {name : String}

/-- **What a flat record leaves of a node passes again, as the same instance and no other.** -/
theorem Passes.again_iff (hflat : s.schema.IsFlat name) (hshape : shape.base = .record name)
    (h : s.Passes shape node y rest) : (∃ rest', s.Passes shape rest x rest') ↔ x = y := by
  obtain ⟨t, b, hbuild, rfl, hstrict, rfl⟩ := h.exists_build
  -- the rest can be built, and strictness has nothing to say about that build
  obtain ⟨b', hbuild', hvalue, hstrict'⟩ : ∃ b',
      s.schema.build (b.skipped.foldl (fun t path => t.remove path) t) shape = .ok b' ∧ b'.value = b.value ∧
        (b'.skipped = [] ∨ s.settings.strict = false) := by
    rcases hstrict with hnil | htolerant
    · rw [hnil]
      exact ⟨b, hbuild, rfl, .inl hnil⟩
    · obtain ⟨b', hbuild', hvalue⟩ := Schema.build_without_own_keys hflat hshape hbuild
      exact ⟨b', hbuild', hvalue, .inr htolerant⟩
  refine ⟨fun ⟨rest', hpasses⟩ => (hpasses.eq_of_build hbuild').trans hvalue, fun hx => ?_⟩
  rw [hx, ← hvalue]
  exact ⟨_, .first hbuild' ⟨hstrict', rfl⟩⟩

end Surroundings

namespace Decoder

variable {s : Surroundings} {decl decl' : TypeDecl} {document : Tree} {x : Instance} {name : String}

/-- **The long way.** As a type of flat records, a document that names any type results in what is built as the root
type of what the named type has left of it, also if that is the root type itself. -/
theorem resultsIn_iff_again (hflat : s.schema.IsFlat name) (hshape : decl.shape.base = .record name) :
    ResultsIn s decl document x ↔
      match document.rootType? with
      | none => ∃ tree rest, s.Resolves 0 document tree ∧ s.Passes decl.shape tree x rest
      | some (typeName, content) => ∃ d inner y rest, s.context.resolve typeName = some d ∧
          s.Resolves 1 content inner ∧ s.Passes d.decl.shape inner y rest ∧
          ∃ rest', s.Passes decl.shape rest x rest' := by
  unfold ResultsIn
  cases document.rootType? with
  | none => exact Iff.rfl
  | some root =>
    refine exists_congr fun d => exists_congr fun inner => exists_congr fun y => exists_congr fun rest => ?_
    refine and_congr_right fun _ => and_congr_right fun _ => and_congr_right fun hpasses => ?_
    split
    · rename_i hof
      rw [Descriptor.isOf_iff.1 hof] at hpasses
      exact (hpasses.again_iff hflat hshape).symm
    · exact Iff.rfl

/-- Types of one flat shape read every document alike. -/
theorem resultsIn_congr (hflat : s.schema.IsFlat name) (hshape : decl.shape.base = .record name)
    (hsame : decl'.shape = decl.shape) : ResultsIn s decl document x ↔ ResultsIn s decl' document x := by
  rw [resultsIn_iff_again hflat hshape, resultsIn_iff_again hflat (hsame ▸ hshape), hsame]

end Decoder

theorem Profile.isFlat (others : Schema) : (Schema.withProfiles others).IsFlat "Profile" := by
  have hfields : (Schema.withProfiles others).fields "Profile" = fields := rfl
  rw [Schema.IsFlat, hfields]
  decide

namespace Decoder

/-- **Both types of profiles read every document alike.** In every context and with all settings, whatever type the
document names or none, it decodes to a profile as the one type exactly if it decodes to that profile as the other, and
to nothing but profiles as either. -/
theorem decode_as_either_profile (others : Schema) (context : Context) (settings : Settings) (document : Tree) :
    let asProfile := decode ⟨.type Profile.decl, context, settings⟩ (.withProfiles others) document
    let asProvisioner := decode ⟨.type Profile.provisionerDecl, context, settings⟩ (.withProfiles others) document
    (∀ p : Profile, asProfile.outcome = .ok (.built p.toInstance) ↔
      asProvisioner.outcome = .ok (.built p.toInstance)) ∧
    (∀ r, asProfile.outcome = .ok r → ∃ p : Profile, r = .built p.toInstance) ∧
    ∀ r, asProvisioner.outcome = .ok r → ∃ p : Profile, r = .built p.toInstance := by
  have hsame : ∀ x, ResultsIn ⟨.withProfiles others, context, settings⟩ Profile.decl document x ↔
      ResultsIn ⟨.withProfiles others, context, settings⟩ Profile.provisionerDecl document x := fun x =>
    resultsIn_congr (Profile.isFlat others) rfl rfl
  refine ⟨fun p => ?_, fun r hr => ?_, fun r hr => ?_⟩
  · rw [decode_type_eq_ok, decode_type_eq_ok]
    exact exists_congr fun x => and_congr_left fun _ => hsame x
  · obtain ⟨x, hx, rfl⟩ := decode_type_eq_ok.1 hr
    obtain ⟨p, rfl⟩ := hx.makes.exists_profile
    exact ⟨p, rfl⟩
  · obtain ⟨x, hx, rfl⟩ := decode_type_eq_ok.1 hr
    obtain ⟨p, rfl⟩ := hx.makes.exists_profile
    exact ⟨p, rfl⟩

/-- A profile with a key that none has and one that is no text, which names the type of profiles: decoded tolerantly as
the provisioner's type, it goes the long way to the same profile. -/
theorem decode_as_either_profile_legacy :
    let document := Tree.tagged "asset.Profile" (.map [(.text "label", .text "legacy"),
      (.text "rack_position", .number (.integer 12)), (.number (.integer 7), .text "junk")])
    let legacy : Profile := { label := "legacy" }
    (decode ⟨.type Profile.decl, .builtin, .tolerant⟩ .profiles document).outcome = .ok (.built legacy.toInstance) ∧
    (decode ⟨.type Profile.provisionerDecl, .builtin, .tolerant⟩ .profiles document).outcome =
      .ok (.built legacy.toInstance) := by
  intro document legacy
  have hprofile : (decode ⟨.type Profile.decl, .builtin, .tolerant⟩ .profiles document).outcome =
      .ok (.built legacy.toInstance) := by rfl
  exact ⟨hprofile, ((decode_as_either_profile _ .builtin .tolerant document).1 legacy).1 hprofile⟩

end Decoder

end Provisioning
