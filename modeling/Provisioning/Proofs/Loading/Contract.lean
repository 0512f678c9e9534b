import Provisioning.Loader
import Provisioning.Proofs.Decode.Course
import Provisioning.Proofs.Profile.Instances

/-!
# What a loader promises

All documents are loaded by one contract, in two parts. `LoadsAt` is about paths: without a path nothing is opened; a
path that cannot be opened is the fault, and nothing is decoded; whatever goes wrong with an open document, only the
path is added to the fault. `DecodesAs` is about streams: what is loaded is what the document is decoded into, under
the one context that was chosen.
-/

namespace Provisioning

namespace Decoder

variable {d : Decoder} {σ : Schema} {s : Stream}

theorem decodeStream_eq_ok {r : Decoded} : (d.decodeStream σ s).outcome = .ok r ↔
    ∃ document, s.readTree = .ok document ∧ (d.decode σ document).outcome = .ok r := by
  unfold decodeStream
  cases s.readTree with
  | error fault => simp [Traced.fail]
  | ok document => simp [decodeTree, Traced.outcome_mapError_eq_ok]

/-- A name that the context does not know cannot be decoded, wherever in the document it stands. -/
theorem decode_of_unknownName {document : Tree} {name : String} (hname : name ∈ document.typeTags)
    (hunknown : d.context.resolve name = none) (r : Decoded) : (d.decode σ document).outcome ≠ .ok r := by
  intro hr
  have hcourse := @course_decode σ d document
  have hfound : (name, true) ∈ Journal.lookups (d.decode σ document).events := by
    rw [(hcourse.of_ok hr).1]
    exact List.mem_map_of_mem hname
  have hknown := hcourse.found_eq _ hfound
  rw [hunknown] at hknown
  cases hknown

end Decoder

namespace Loader

variable {α : Type}

/-! ## Streams -/

/-- What is loaded from streams is written as `write` says, and is what their documents are decoded into. -/
structure DecodesAs (σ : Schema) (d : Decoder) (write : α → Instance) (load : Stream → Traced Fault α) : Prop where
  /-- What is loaded can be told from how it is written. -/
  injective : Function.Injective write
  /-- The events, the fault and the result are those of the decode. -/
  eq_decodeStream : ∀ s, (fun a => Decoded.built (write a)) <$> load s = d.decodeStream σ s
  /-- A name that the context does not know is looked up nowhere else. -/
  unknownName : ∀ s document, s.readTree = .ok document → ∀ name ∈ document.typeTags,
    d.context.resolve name = none → ∃ fault, (load s).outcome = .error fault

theorem decodesAs_loadWith (l : Loader) {d : Decoder} {decl : TypeDecl} (hroot : d.root = .type decl)
    {write : α → Instance} {convert : Instance → Option α} (hconvert : ∀ a, convert (write a) = some a)
    (hmakes : ∀ x, l.schema.Makes decl.shape x → ∃ a, write a = x) (orElse : α) :
    DecodesAs l.schema d write (l.loadWith d convert orElse) := by
  obtain ⟨root, context, settings⟩ := d
  obtain rfl := hroot
  have heq : ∀ s, (fun a => Decoded.built (write a)) <$> l.loadWith ⟨.type decl, context, settings⟩ convert orElse s =
      Decoder.decodeStream ⟨.type decl, context, settings⟩ l.schema s := by
    intro s
    refine Traced.map_bind_pure fun r hr => ?_
    obtain ⟨document, -, hdecode⟩ := Decoder.decodeStream_eq_ok.1 hr
    obtain ⟨x, hx, rfl⟩ := Decoder.decode_type_eq_ok.1 hdecode
    -- every instance of the root type stands for something, so that `orElse` is never the result
    obtain ⟨a, rfl⟩ := hmakes x hx.makes
    show Decoded.built (write ((convert (write a)).getD orElse)) = _
    rw [hconvert, Option.getD_some]
  have hinjective : Function.Injective write := fun a b hab =>
    Option.some.inj ((hconvert a).symm.trans ((congrArg convert hab).trans (hconvert b)))
  refine ⟨hinjective, heq, fun s document hread name hname hunknown => ?_⟩
  cases hload : (l.loadWith ⟨.type decl, context, settings⟩ convert orElse s).outcome with
  | error fault => exact ⟨fault, rfl⟩
  | ok a =>
    have hdecoded := Traced.outcome_map_of_ok (f := fun a => Decoded.built (write a)) hload
    -- then the same document was decoded, and the name in it was found
    rw [heq, Decoder.decodeStream_eq_ok] at hdecoded
    obtain ⟨document', hread', hdecode⟩ := hdecoded
    obtain rfl := Except.ok.inj (hread.symm.trans hread')
    exact absurd hdecode (Decoder.decode_of_unknownName hname hunknown _)

/-! ## Paths -/

/-- `loadAt` opens a path and loads what is there as `load` does. After a success it notes `noted`. -/
structure LoadsAt (decl : TypeDecl) (noted : α → List Event) (load : Stream → Traced Fault α)
    (loadAt : Files → Option String → Traced Fault α) : Prop where
  withoutPath : ∀ files, loadAt files none =
    ⟨[], .error ⟨.notFound, "no document path given for `" ++ decl.name ++ "`", none, []⟩⟩
  notOpened : ∀ files path failure, files path = .error failure → loadAt files (some path) =
    ⟨[.opening path], .error ⟨if failure.kind = .notFound then .notFound else .io, failure.text, some path,
      [.foreign failure.text]⟩⟩
  loaded : ∀ files path s events a, files path = .ok s → load s = ⟨events, .ok a⟩ →
    loadAt files (some path) = ⟨.opening path :: events ++ noted a, .ok a⟩
  failed : ∀ files path s events fault, files path = .ok s → load s = ⟨events, .error fault⟩ →
    loadAt files (some path) = ⟨.opening path :: events, .error { fault with document := some path }⟩

variable {decl : TypeDecl} {load : Stream → Traced Fault α}

theorem loadsAt_atPath : LoadsAt decl (fun _ => []) load fun files => atPath files decl load where
  withoutPath _ := rfl
  notOpened files path failure h := by
    obtain ⟨kind, text⟩ := failure
    simp only [atPath, h]
    cases kind <;> rfl
  loaded files path s events a h hload := by
    simp only [atPath, h, hload]
    show (⟨[.opening path] ++ events, .ok a⟩ : Traced Fault α) = _
    rw [List.append_nil]
    rfl
  failed files path s events fault h hload := by
    simp only [atPath, h, hload]
    rfl

/-- What is noted at the end is noted only after a success. -/
theorem LoadsAt.noting {loadAt : Files → Option String → Traced Fault α}
    (h : LoadsAt decl (fun _ => []) load loadAt) (event : α → Event) :
    LoadsAt decl (fun a => [event a]) load fun files path => do
      let a ← loadAt files path
      .note (event a)
      pure a where
  withoutPath files := by
    rw [h.withoutPath]
    rfl
  notOpened files path failure hfiles := by
    rw [h.notOpened files path failure hfiles]
    rfl
  loaded files path s events a hfiles hload := by
    rw [h.loaded files path s events a hfiles hload, List.append_nil]
    rfl
  failed files path s events fault hfiles hload := by
    rw [h.failed files path s events fault hfiles hload]
    rfl

/-! ## The contract -/

/-- The first that is there of the context given for a document, the loader's and the home context. -/
theorem decoder_context (l : Loader) (decl : TypeDecl) (given : Option Context) (settings : Settings)
    {context : Context} (h : [given, l.context, some .builtin].reduceOption.head? = some context) :
    l.decoder decl given settings = ⟨.type decl, context, settings⟩ := by
  have hfirst : (given.or l.context).getD .builtin = context := by
    cases given with
    | some c => exact Option.some.inj h
    | none =>
      cases hconfigured : l.context with
      | some c =>
        rw [hconfigured] at h
        exact Option.some.inj h
      | none =>
        rw [hconfigured] at h
        exact Option.some.inj h
  rw [decoder, hfirst]

/-- **The contract of a loader.** The three kinds of documents are opened alike, and each is decoded with the settings
of its own kind under the first context that is there: the one given for the document, the loader's, the home
context. -/
theorem load_contract {others : Schema} {l : Loader} (hschema : l.schema = .withProfiles others) :
    LoadsAt Profile.decl (fun _ => []) l.loadPrivileged l.loadPrivilegedAt ∧
    (∀ given, LoadsAt Profile.provisionerDecl (fun _ => []) (l.loadProvisioner given)
      fun files path => l.loadProvisionerAt files path given) ∧
    LoadsAt Catalog.decl (fun c => [.catalogLoaded c.size]) l.loadCatalog l.loadCatalogAt ∧
    (∀ context, [l.context, some .builtin].reduceOption.head? = some context →
      DecodesAs l.schema ⟨.type Profile.decl, context, l.privileged⟩ Profile.toInstance l.loadPrivileged ∧
      DecodesAs l.schema ⟨.type Catalog.decl, context, l.catalog⟩ Catalog.toInstance l.loadCatalog) ∧
    ∀ given context, [given, l.context, some .builtin].reduceOption.head? = some context →
      DecodesAs l.schema ⟨.type Profile.provisionerDecl, context, l.provisioner⟩ Profile.toInstance
        (l.loadProvisioner given) := by
  have hprofile : ∀ x, l.schema.Makes (.record "Profile") x → ∃ p : Profile, p.toInstance = x :=
    fun x hx => (hschema ▸ hx).exists_profile
  have hcatalog : ∀ x, l.schema.Makes (.record "ProfileCatalog") x → ∃ c : Catalog, c.toInstance = x :=
    fun x hx => (hschema ▸ hx).exists_catalog
  refine ⟨loadsAt_atPath, fun _ => loadsAt_atPath, loadsAt_atPath.noting _, fun context hcontext => ⟨?_, ?_⟩,
    fun given context hcontext => ?_⟩
  · rw [← l.decoder_context Profile.decl none l.privileged hcontext]
    exact l.decodesAs_loadWith rfl Profile.ofInstance?_toInstance hprofile _
  · rw [← l.decoder_context Catalog.decl none l.catalog hcontext]
    exact l.decodesAs_loadWith rfl Catalog.ofInstance?_toInstance hcatalog _
  · rw [← l.decoder_context Profile.provisionerDecl given l.provisioner hcontext]
    exact l.decodesAs_loadWith rfl Profile.ofInstance?_toInstance hprofile _

/-- A profile that names its type. -/
def taggedProfile : Stream := .ofText "!asset.ProvisionerProfile {label: web}"

/-- An empty context that is given for a document is not helped out by the home context, which knows the type. -/
theorem load_contract_emptyContext :
    let l : Loader := {}
    let files : Files := fun path => if path = "web.yaml" then .ok taggedProfile else .error IoFailure.missing
    l.loadCatalogAt files (some "racks.yaml") =
      ⟨[.opening "racks.yaml"], .error ⟨.notFound, IoFailure.missing.text, some "racks.yaml",
        [.foreign IoFailure.missing.text]⟩⟩ ∧
    ∃ fault : Fault, (l.loadProvisionerAt files (some "web.yaml") (some .nothing)).outcome =
      .error { fault with document := some "web.yaml" } := by
  intro l files
  obtain ⟨-, hprovisioner, hcatalog, -, hdecodes⟩ := @load_contract ⟨fun _ => [], fun _ => []⟩ l rfl
  refine ⟨hcatalog.notOpened files "racks.yaml" .missing rfl, ?_⟩
  have htagged : (taggedProfile.readTree.toOption.map Tree.typeTags) = some ["asset.ProvisionerProfile"] := by
    decide +kernel
  cases hread : taggedProfile.readTree with
  | error fault =>
    rw [hread] at htagged
    cases htagged
  | ok document =>
    rw [hread] at htagged
    have hname : "asset.ProvisionerProfile" ∈ document.typeTags := by
      rw [Option.some.inj htagged]
      exact List.mem_singleton_self _
    obtain ⟨fault, hfault⟩ := (hdecodes (some .nothing) .nothing rfl).unknownName _ _ hread _ hname rfl
    refine ⟨fault, ?_⟩
    rw [(hprovisioner (some .nothing)).failed files "web.yaml" taggedProfile _ fault rfl
      (congrArg (Traced.mk _) hfault)]

end Loader

end Provisioning
