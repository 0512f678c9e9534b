import Provisioning.Proofs.Decode.Failures
import Provisioning.Proofs.Decode.NormalForm

/-!
# Strict decoding lets no other key through

A build asks nothing about what lies below a key that it skips. Strictness makes up for that: where nothing is skipped,
every map of the document was read, and a map is read only if its keys are texts below their tags. So a strict decode
that succeeds has seen all keys of the document, wherever they stand.
-/

namespace Provisioning

namespace Tree

/-- Every map key of the document is a text below its tags. -/
def KeysHoldTexts (t : Tree) : Prop :=
  ∀ n ∈ t.nodes, match n with
    | .map es => ∀ e ∈ es, ∃ s, e.1.untagged = .text s
    | _ => True

theorem keysHoldTexts_list {ts : List Tree} : (Tree.list ts).KeysHoldTexts ↔ ∀ t ∈ ts, t.KeysHoldTexts := by
  rw [KeysHoldTexts, forall_nodes_list]
  exact and_iff_right trivial

theorem keysHoldTexts_map {es : List (Tree × Tree)} :
    (Tree.map es).KeysHoldTexts ↔ (∀ e ∈ es, ∃ s, e.1.untagged = .text s) ∧
      ∀ e ∈ es, e.1.KeysHoldTexts ∧ e.2.KeysHoldTexts := by
  rw [KeysHoldTexts, forall_nodes_map]
  rfl

theorem keysHoldTexts_tagged {tag : String} {content : Tree} :
    (Tree.tagged tag content).KeysHoldTexts ↔ content.KeysHoldTexts := by
  rw [KeysHoldTexts, forall_nodes_tagged]
  exact and_iff_right trivial

theorem keysHoldTexts_of_isScalar {t : Tree} (h : t.isScalar = true) : t.KeysHoldTexts := by
  cases t with
  | null | flag | number | text => exact fun n hn => List.mem_singleton.1 hn ▸ trivial
  | list | map | tagged => exact Bool.noConfusion h

/-- A text below tags is no map, and there is none around it. -/
theorem keysHoldTexts_of_untagged {k : Tree} {s : String} (h : k.untagged = .text s) : k.KeysHoldTexts := by
  induction k using induct with
  | tagged tag content ih => exact keysHoldTexts_tagged.2 (ih h)
  | text => exact keysHoldTexts_of_isScalar rfl
  | null | flag | number | list | map => exact nomatch h

end Tree

namespace Schema

variable {σ : Schema}

/-! ## Builds that skip nothing -/

/-- Whatever a node is built or read as, if no key is skipped then all its keys hold texts. -/
structure ReadsAllKeys (σ : Schema) (t : Tree) : Prop where
  build : ∀ {shape : Shape} {b : Built Instance}, σ.build t shape = .ok b → b.skipped = [] → t.KeysHoldTexts
  parts : ∀ {reader : PartsReader} {b : Built Instance}, ReadsParts σ reader t b → b.skipped = [] → t.KeysHoldTexts

theorem keysHoldTexts_of_readsItems {ts : List Tree} {shapes : List Shape} {bs : List (Built Instance)}
    (ih : ∀ t ∈ ts, σ.ReadsAllKeys t) (h : ReadsItems σ ts shapes bs) :
    ∀ position, skippedInItems position bs = [] → ∀ t ∈ ts, t.KeysHoldTexts := by
  induction h with
  | nil => exact fun _ _ => nofun
  | cons hbuild _ ihitems =>
    intro position hskipped
    obtain ⟨hfirst, hrest⟩ := List.append_eq_nil_iff.1 hskipped
    obtain ⟨iht, ihts⟩ := List.forall_mem_cons.1 ih
    exact List.forall_mem_cons.2
      ⟨iht.build hbuild (List.map_eq_nil_iff.1 hfirst), ihitems ihts (position + 1) hrest⟩

/-- An entry that is skipped is a key that is skipped. So where there is none, all values were built. -/
theorem ReadsEntry.keysHoldTexts {wants : String → Option (String × Shape)} {e : Tree × Tree} {r : EntryReading}
    (ih : σ.ReadsAllKeys e.2) (h : ReadsEntry σ wants e r) (hskipped : r.skipped = []) : e.2.KeysHoldTexts := by
  cases h with
  | wanted _ _ hbuild => exact ih.build hbuild (List.map_eq_nil_iff.1 hskipped)
  | unwanted => exact nomatch hskipped

theorem readsAllKeys_list {ts : List Tree} (ih : ∀ t ∈ ts, σ.ReadsAllKeys t) : σ.ReadsAllKeys (.list ts) := by
  have hparts : ∀ {reader : PartsReader} {b : Built Instance}, ReadsParts σ reader (.list ts) b →
      b.skipped = [] → (Tree.list ts).KeysHoldTexts := by
    intro reader b h hskipped
    cases h with
    | items finish hitems => exact Tree.keysHoldTexts_list.2 (keysHoldTexts_of_readsItems ih hitems 0 hskipped)
  refine ⟨fun h => ?_, hparts⟩
  obtain ⟨reader, -, hreads⟩ := build_list_eq_ok_iff.1 h
  exact hparts hreads

theorem readsAllKeys_map {es : List (Tree × Tree)} (ih : ∀ e ∈ es, σ.ReadsAllKeys e.2) :
    σ.ReadsAllKeys (.map es) := by
  have hparts : ∀ {reader : PartsReader} {b : Built Instance}, ReadsParts σ reader (.map es) b →
      b.skipped = [] → (Tree.map es).KeysHoldTexts := by
    intro reader b h hskipped
    cases h with
    | entries hentries _ =>
      have htexts : ∀ e ∈ es, ∃ s, e.1.untagged = .text s := fun e he => exists_key_of_mem hentries he
      refine Tree.keysHoldTexts_map.2 ⟨htexts, fun e he => ?_⟩
      obtain ⟨s, hs⟩ := htexts e he
      obtain ⟨r, hr, hread⟩ := (forall₂_partners hentries).1 e he
      exact ⟨Tree.keysHoldTexts_of_untagged hs,
        hread.keysHoldTexts (ih e he) (List.flatMap_eq_nil_iff.1 hskipped r hr)⟩
  refine ⟨fun h => ?_, hparts⟩
  obtain ⟨reader, -, hreads⟩ := build_map_eq_ok_iff.1 h
  exact hparts hreads

theorem readsAllKeys_tagged {tag : String} {content : Tree} (ih : σ.ReadsAllKeys content) :
    σ.ReadsAllKeys (.tagged tag content) := by
  refine ⟨fun h hskipped => Tree.keysHoldTexts_tagged.2 ?_, fun h => nomatch h⟩
  cases build_tagged_eq_ok_iff.1 h with
  | scalar hscalar _ => exact Bool.noConfusion hscalar
  | parts _ hreads => exact nomatch hreads
  | bare => exact Tree.keysHoldTexts_of_isScalar rfl
  | one _ _ hbuild => exact ih.build hbuild (List.map_eq_nil_iff.1 hskipped)
  | payload _ _ _ hreads => exact ih.parts hreads hskipped
  | through _ hbuild => exact ih.build hbuild hskipped

/-- **A build that skips nothing has read every key.** The induction is on the node; what a shape does not look at hangs
below a key that it skips. -/
theorem readsAllKeys (t : Tree) : σ.ReadsAllKeys t := by
  induction t using Tree.induct with
  | null | flag | number | text =>
    exact ⟨fun _ _ => Tree.keysHoldTexts_of_isScalar rfl, fun h => nomatch h⟩
  | list ts ih => exact readsAllKeys_list ih
  | map es ih => exact readsAllKeys_map fun e he => (ih e he).2
  | tagged tag content ih => exact readsAllKeys_tagged ih

end Schema

namespace Decoder

/-- What decodes strictly has texts for keys, at any depth. -/
theorem keysHoldTexts_of_decode_strict {σ : Schema} {decl : TypeDecl} {context : Context} {limit : Nat}
    {document : Tree} {r : Decoded} (htags : document.OnlyVariantTags) (hkeys : document.DistinctKeys)
    (h : (decode ⟨.type decl, context, ⟨true, limit⟩⟩ σ document).outcome = .ok r) : document.KeysHoldTexts := by
  obtain ⟨-, -, x, hbuild, -⟩ := yields_run_type.1 (decode_strict_eq_ok_iff_yields.1 h)
  rw [Tree.bare_eq_self htags hkeys] at hbuild
  exact (Schema.readsAllKeys document).build hbuild rfl

/-- **Strict decoding lets no other key through.** Some map of a document without type tags and core tags has a key that
is not a text below its tags, at whatever depth and whether or not the root type has a use for the map. Then strict
decoding fails, as a type of any shape, in every context and with every limit. The fault is one of decoding down to its
root: a node is too deep, keys are unknown, or the document does not fit the type. -/
theorem decode_strict_of_other_key (σ : Schema) (decl : TypeDecl) (context : Context) (limit : Nat) (document : Tree)
    (es : List (Tree × Tree)) (k v : Tree) (htags : document.OnlyVariantTags) (hkeys : document.DistinctKeys)
    (hmap : .map es ∈ document.nodes) (hentry : (k, v) ∈ es) (hother : ∀ s, k.untagged ≠ .text s) :
    ∃ f, (decode ⟨.type decl, context, ⟨true, limit⟩⟩ σ document).outcome = .error f ∧
      f.toFault.kind = .decode ∧ f.toFault.rootKind = .decode ∧
      ((∃ place, f = .tooDeep limit place) ∨ (∃ typeName paths, f = .unknownFields typeName paths) ∨
        ∃ decl reason, f = .unbuildable decl reason) := by
  cases houtcome : (decode ⟨.type decl, context, ⟨true, limit⟩⟩ σ document).outcome with
  | ok r =>
    obtain ⟨s, hs⟩ := keysHoldTexts_of_decode_strict htags hkeys houtcome _ hmap (k, v) hentry
    exact absurd hs (hother s)
  | error f =>
    have hnames := Tree.typeTags_of_onlyVariantTags htags
    have hblames := explains_decode _ document f houtcome
    rw [hnames] at hblames
    refine ⟨f, rfl, rfl, ?_, ?_⟩
    · rcases hblames.kinds with ⟨-, name, hname, -⟩ | ⟨hkind, -⟩
      · exact nomatch hname
      · exact hkind
    · cases hblames with
      | tooDeep place _ => exact .inl ⟨place, rfl⟩
      | skipped typeName _ _ => exact .inr (.inl ⟨typeName, _, rfl⟩)
      | unfit _ => exact .inr (.inr ⟨_, _, rfl⟩)
      | missed _ hname => exact nomatch hname
      | nested _ hname => exact nomatch hname

/-- A node with a key that no node has, below which a map in a list has a flag as a key. -/
def slottedNode : Tree := .map [
  (.text "name", .text "db"), (.text "slots", .list [.tagged "free" (.map [(.flag true, .text "a1")])])]

/-- The build of the node never gets to the flag; strict decoding fails for the key above it. -/
theorem decode_strict_of_other_key_slottedNode :
    let decoded := decode ⟨.type Samples.node, .builtin, ⟨true, 64⟩⟩ Samples.schema slottedNode
    (∃ b, Samples.schema.build slottedNode Samples.node.shape = .ok b) ∧
    (∃ f, decoded.outcome = .error f ∧ f.toFault.rootKind = .decode) ∧
    decoded.outcome = .error (.unknownFields "test.Node" ["slots"]) := by
  intro decoded
  have hmap : Tree.map [(.flag true, .text "a1")] ∈ slottedNode.nodes := by
    simp [slottedNode, Tree.nodes, Tree.itemsNodes, Tree.entriesNodes]
  have hflag : ∀ s, (Tree.flag true).untagged ≠ .text s := fun s => Tree.noConfusion
  obtain ⟨f, hf, -, hkind, -⟩ := decode_strict_of_other_key Samples.schema Samples.node .builtin 64 slottedNode _ _ _
    (by decide) (by decide) hmap List.mem_cons_self hflag
  exact ⟨⟨_, rfl⟩, ⟨f, hf, hkind⟩, rfl⟩

end Decoder

end Provisioning
