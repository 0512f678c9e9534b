import Provisioning.Proofs.Decode.Strictness
import Provisioning.Proofs.Tree.Insertion

/-!
# Entries that a strict decode loses

A strict decode refuses a key that nothing takes, and the text of a document is refused if one of its keys comes
twice. But a key may lose its tag when it is resolved, and be the same as another key after that. Then the later value
takes the place of the earlier one, and no failure tells.
-/

namespace Provisioning

namespace Decoder

/-- A strict decode to a tree gives the document without its tags. -/
theorem eq_bare_of_decode_strict {σ : Schema} {context : Context} {limit : Nat} {document tree : Tree}
    (h : (decode ⟨.any, context, ⟨true, limit⟩⟩ σ document).outcome = .ok (.untyped tree)) :
    tree = document.bare := by
  obtain ⟨-, -, hmeans⟩ := yields_run_any.1 (decode_strict_eq_ok_iff_yields.1 h)
  unfold MeansAny at hmeans
  split at hmeans
  · obtain ⟨d, x, -, -, htyped⟩ := hmeans
    cases htyped
  · exact Decoded.untyped.inj hmeans

/-- **When a strict decode keeps all entries.** The tree that a document decodes to has at most the entries of the
document, and all of them exactly if no two keys of one map become one key by losing their type tags and core tags.
So none are lost where the keys differ and have no such tags, whatever the values are. -/
theorem entryCount_of_decode_strict (σ : Schema) (context : Context) (limit : Nat) (document tree : Tree)
    (h : (decode ⟨.any, context, ⟨true, limit⟩⟩ σ document).outcome = .ok (.untyped tree)) :
    tree.entryCount ≤ document.entryCount ∧
    (tree.entryCount = document.entryCount ↔ document.KeysStayApart) ∧
    (document.DistinctKeys → (∀ n ∈ document.nodes, n.keysAreResolved = true) →
      tree.entryCount = document.entryCount) := by
  obtain rfl := eq_bare_of_decode_strict h
  obtain ⟨hle, hiff⟩ := Tree.entryCount_bare document
  exact ⟨hle, hiff, fun hkeys hresolved => hiff.2 (Tree.keysStayApart_of_resolved hkeys hresolved)⟩

/-- Two disks as keys, one of them tagged. -/
def diskKeys (size : Int) : Tree :=
  .map [(.tagged "test.Disk" (.map [(.text "size_gb", .number (.integer 1))]), .text "a"),
    (.map [(.text "size_gb", .number (.integer size))], .text "b")]

/-- The context that knows the sample disk. -/
def disks : Context := .layer (.ofList [("test.Disk", .own Samples.disk)]) .nothing

/-- Disks of two sizes stay apart. -/
theorem entryCount_of_decode_strict_diskKeys :
    (decode ⟨.any, disks, .rejecting⟩ Samples.schema (diskKeys 2)).outcome = .ok (.untyped (diskKeys 2).bare) ∧
    (diskKeys 2).bare.entryCount = (diskKeys 2).entryCount := by
  have hdecoded : (decode ⟨.any, disks, .rejecting⟩ Samples.schema (diskKeys 2)).outcome =
      .ok (.untyped (diskKeys 2).bare) := by rfl
  obtain ⟨-, hiff, -⟩ := entryCount_of_decode_strict Samples.schema disks 64 (diskKeys 2) _ hdecoded
  exact ⟨hdecoded, hiff.2 (by decide)⟩

/-- Disks of one size do not, although their keys differ in the document: the first value is lost, with the disk that
was its key, and the decode succeeds. -/
theorem strict_decode_loses_entry :
    (diskKeys 1).DistinctKeys ∧
    (decode ⟨.any, disks, .rejecting⟩ Samples.schema (diskKeys 1)).outcome =
      .ok (.untyped (.map [(.map [(.text "size_gb", .number (.integer 1))], .text "b")])) ∧
    (diskKeys 1).entryCount = 4 ∧
    (Tree.map [(.map [(.text "size_gb", .number (.integer 1))], .text "b")]).entryCount = 2 := by
  refine ⟨?_, ?_, ?_, ?_⟩
  · decide
  · rfl
  · rfl
  · rfl

end Decoder

end Provisioning
