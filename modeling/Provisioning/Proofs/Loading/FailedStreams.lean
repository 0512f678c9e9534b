import Provisioning.Proofs.Loading.Contract

/-!
# Streams that fail

A stream that fails is reported as a document that cannot be decoded: whatever was delivered before the failure and of
whatever kind it is, the fault is one of decoding and has the text of the failure. The kinds of faults for input that is
missing or cannot be read are met only where a path cannot be opened.
-/

namespace Provisioning

namespace Decoder

variable {d : Decoder} {σ : Schema} {s : Stream} {fault : Fault}

/-- Nothing that was delivered before the failure is looked at. -/
theorem decodeStream_failed (octets : List UInt8) (failure : IoFailure) :
    d.decodeStream σ ⟨octets, some failure⟩ = .fail ⟨.decode, failure.text, none, [.foreign failure.text]⟩ := by
  -- a failed stream has no place that the text could end with
  show (.fail ⟨.decode, failure.text ++ "", none, [.foreign failure.text]⟩ : Traced Fault Decoded) = _
  rw [String.append_empty]

/-- A stream gives a document, or a fault of decoding. -/
theorem kind_of_readTree_eq_error (h : s.readTree = .error fault) : fault.kind = .decode := by
  unfold Stream.readTree Stream.readWith at h
  split at h
  · obtain rfl := Except.error.inj h
    rfl
  · cases hread : Yaml.readTree s.octets with
    | ok document =>
      rw [hread] at h
      cases h
    | error failure =>
      rw [hread] at h
      obtain rfl := Except.error.inj h
      rfl

/-- Whatever goes wrong with a stream is a fault of decoding. -/
theorem kind_of_decodeStream_eq_error (h : (d.decodeStream σ s).outcome = .error fault) : fault.kind = .decode := by
  unfold decodeStream at h
  cases hread : s.readTree with
  | error refused =>
    rw [hread] at h
    obtain rfl := Except.error.inj h
    exact kind_of_readTree_eq_error hread
  | ok document =>
    rw [hread] at h
    obtain ⟨failure, -, rfl⟩ := Traced.outcome_mapError_eq_error.1 h
    rfl

end Decoder

namespace Loader

variable {α : Type}

/-- Loading reports a failed stream as it reports a document that cannot be decoded. -/
structure BlamesDocument (load : Stream → Traced Fault α) (loadAt : Files → Option String → Traced Fault α) :
    Prop where
  failedStream : ∀ octets failure, load ⟨octets, some failure⟩ =
    .fail ⟨.decode, failure.text, none, [.foreign failure.text]⟩
  failedFile : ∀ files path octets failure, files path = .ok ⟨octets, some failure⟩ →
    loadAt files (some path) = ⟨[.opening path], .error ⟨.decode, failure.text, some path, [.foreign failure.text]⟩⟩
  /-- No fault of a stream is of another kind. -/
  kind : ∀ s fault, (load s).outcome = .error fault → fault.kind = .decode
  /-- At a path, faults of another kind are those of paths that were not opened. -/
  kindAt : ∀ files path fault, (loadAt files path).outcome = .error fault →
    (fault.kind = .decode ↔ ∃ p s, path = some p ∧ files p = .ok s)

theorem loadWith_failed (l : Loader) (d : Decoder) (convert : Instance → Option α) (orElse : α) (octets : List UInt8)
    (failure : IoFailure) : l.loadWith d convert orElse ⟨octets, some failure⟩ =
      .fail ⟨.decode, failure.text, none, [.foreign failure.text]⟩ := by
  rw [loadWith, Decoder.decodeStream_failed]
  rfl

theorem kind_of_loadWith_eq_error {l : Loader} {d : Decoder} {convert : Instance → Option α} {orElse : α} {s : Stream}
    {fault : Fault} (h : (l.loadWith d convert orElse s).outcome = .error fault) : fault.kind = .decode := by
  unfold loadWith at h
  cases hdecode : (d.decodeStream l.schema s).outcome with
  | ok decoded =>
    rw [Traced.outcome_bind_of_ok hdecode] at h
    cases h
  | error refused =>
    rw [Traced.outcome_bind_of_error hdecode] at h
    obtain rfl := Except.error.inj h
    exact Decoder.kind_of_decodeStream_eq_error hdecode

theorem LoadsAt.blamesDocument {l : Loader} {d : Decoder} {convert : Instance → Option α} {orElse : α}
    {decl : TypeDecl} {noted : α → List Event} {loadAt : Files → Option String → Traced Fault α}
    (h : LoadsAt decl noted (l.loadWith d convert orElse) loadAt) :
    BlamesDocument (l.loadWith d convert orElse) loadAt where
  failedStream := l.loadWith_failed d convert orElse
  failedFile files path octets failure hfiles :=
    h.failed files path _ [] _ hfiles (l.loadWith_failed d convert orElse octets failure)
  kind _ _ := kind_of_loadWith_eq_error
  kindAt files path fault hfault := by
    cases path with
    | none =>
      rw [h.withoutPath] at hfault
      obtain rfl := Except.error.inj hfault
      exact ⟨nofun, nofun⟩
    | some path =>
      cases hfiles : files path with
      | error failure =>
        rw [h.notOpened files path failure hfiles] at hfault
        obtain rfl := Except.error.inj hfault
        obtain ⟨kind, text⟩ := failure
        refine ⟨fun hkind => ?_, fun hopened => ?_⟩
        · cases kind <;> cases hkind
        · obtain ⟨p, s, hpath, hopened⟩ := hopened
          obtain rfl := Option.some.inj hpath
          cases hfiles.symm.trans hopened
      | ok s =>
        refine iff_of_true ?_ ⟨path, s, rfl, hfiles⟩
        cases hload : l.loadWith d convert orElse s with
        | mk events outcome =>
          cases outcome with
          | ok a =>
            rw [h.loaded files path s events a hfiles hload] at hfault
            cases hfault
          | error inner =>
            rw [h.failed files path s events inner hfiles hload] at hfault
            obtain rfl := Except.error.inj hfault
            exact @kind_of_loadWith_eq_error _ l d convert orElse s inner (congrArg Traced.outcome hload)

/-- **A failed stream counts as a document that cannot be decoded**, at every place that reads one. The kind of the
failure is lost, and only its text is kept. -/
theorem failed_stream_blames_document (l : Loader) :
    (∀ (d : Decoder) (σ : Schema), (∀ octets failure, d.decodeStream σ ⟨octets, some failure⟩ =
        .fail ⟨.decode, failure.text, none, [.foreign failure.text]⟩) ∧
      ∀ s fault, (d.decodeStream σ s).outcome = .error fault → fault.kind = .decode) ∧
    BlamesDocument l.loadPrivileged l.loadPrivilegedAt ∧
    (∀ given, BlamesDocument (l.loadProvisioner given) fun files path => l.loadProvisionerAt files path given) ∧
    BlamesDocument l.loadCatalog l.loadCatalogAt := by
  refine ⟨fun d σ => ⟨Decoder.decodeStream_failed, fun _ _ => Decoder.kind_of_decodeStream_eq_error⟩, ?_,
    fun given => ?_, ?_⟩
  · exact loadsAt_atPath.blamesDocument
  · exact loadsAt_atPath.blamesDocument
  · exact (loadsAt_atPath.noting _).blamesDocument

/-- That access was denied while a profile was read is not reported as a failure to read. -/
theorem denied_stream_is_not_io :
    let decoder : Decoder := ⟨.type Profile.decl, .builtin, .rejecting⟩
    let denied : Stream := { Stream.ofText "label: web\n" with failure := some ⟨.other, "denied"⟩ }
    ¬∃ fault, (decoder.decodeStream .profiles denied).outcome = .error fault ∧ fault.kind = .io := by
  intro decoder denied ⟨fault, hfault, hio⟩
  have hdecode := Decoder.kind_of_decodeStream_eq_error hfault
  rw [hio] at hdecode
  cases hdecode

end Loader

end Provisioning
