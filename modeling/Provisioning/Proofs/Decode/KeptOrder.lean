import Provisioning.Proofs.Decode.EntryOrder
import Provisioning.Proofs.Decode.LostEntries
import Provisioning.Proofs.Tree.InOrder

/-!
# Which order a tolerant decode keeps

Resolving a document keeps the order of its entries; only the builds of its typed nodes may change it, where they remove
keys. So what is left of an untyped document is what is left of it in order, up to the order. It is that itself if in
each build the dropped keys stand last (`Surroundings.DropsLast`). Keys that are dropped because they are not text never
matter; one key that is dropped in front of two others does.
-/

namespace Provisioning

/-- What may be left of a document whose entries all keep their order: tags are resolved, of entries whose keys become
one the first keeps its place, and below a tag that names a type entries may be dropped. -/
inductive Tree.LeavesInOrder : Tree → Tree → Prop
  | scalar {t : Tree} : t.isScalar = true → LeavesInOrder t t
  | list {ts us : List Tree} : List.Forall₂ LeavesInOrder ts us → LeavesInOrder (.list ts) (.list us)
  | map {es fs : List (Tree × Tree)} : List.Forall₂ LeavesInOrder (es.map (·.1)) (fs.map (·.1)) →
      List.Forall₂ LeavesInOrder (es.map (·.2)) (fs.map (·.2)) → LeavesInOrder (.map es) (.ofEntries fs)
  | core {tag : String} {content u : Tree} :
      TagRole.ofTag tag = .core → LeavesInOrder content u → LeavesInOrder (.tagged tag content) u
  | variant {tag : String} {content u : Tree} :
      TagRole.ofTag tag = .variant → LeavesInOrder content u → LeavesInOrder (.tagged tag content) (.tagged tag u)
  | type {tag name : String} {content inner u : Tree} :
      TagRole.ofTag tag = .type name → LeavesInOrder content inner → inner.Trims u →
      LeavesInOrder (.tagged tag content) u

theorem Tree.eq_of_leavesInOrder {ts us : List Tree} (h : List.Forall₂ LeavesInOrder ts us)
    (hts : ∀ t ∈ ts, ∀ u, t.LeavesInOrder u → u = t) : us = ts := by
  induction h with
  | nil => rfl
  | cons hfirst _ ih =>
    obtain ⟨ht, hrest⟩ := List.forall_mem_cons.1 hts
    rw [ht _ hfirst, ih hrest]

/-- A document without tags, whose keys differ, stays what it is. -/
theorem Tree.LeavesInOrder.eq_of_tagFree {t : Tree} (hfree : t.TagFree) (hkeys : t.DistinctKeys) :
    ∀ u : Tree, t.LeavesInOrder u → u = t := by
  induction t using Tree.induct with
  | null | flag | number | text =>
    intro u h
    cases h
    rfl
  | list ts ih =>
    intro u h
    cases h with
    | scalar h => exact Bool.noConfusion h
    | list hus =>
      rw [eq_of_leavesInOrder hus fun t ht => ih t ht (tagFree_list.1 hfree t ht) (distinctKeys_list.1 hkeys t ht)]
  | map es ih =>
    intro u h
    have hes := tagFree_map.1 hfree
    obtain ⟨hdiffer, hbelow⟩ := distinctKeys_map.1 hkeys
    cases h with
    | scalar h => exact Bool.noConfusion h
    | @map _ fs hks hvs =>
      have hfst : fs.map (·.1) = es.map (·.1) := eq_of_leavesInOrder hks <| List.forall_mem_map.2 fun e he =>
        (ih e he).1 (hes e he).1 (hbelow e he).1
      have hsnd : fs.map (·.2) = es.map (·.2) := eq_of_leavesInOrder hvs <| List.forall_mem_map.2 fun e he =>
        (ih e he).2 (hes e he).2 (hbelow e he).2
      obtain rfl : fs = es := (List.zip_of_prod hfst hsnd).trans (List.zip_of_prod rfl rfl).symm
      exact congrArg Tree.map (foldl_insert_of_pairwise hdiffer)
  | tagged => exact absurd hfree not_tagFree_tagged

namespace Surroundings

variable {s : Surroundings} {depth : Nat} {t u node tree : Tree} {paths : List KeyPath}

/-- The keys that the build of a node with a type tag drops, and the tree it drops them from: what is left of the
content or, if that cannot be built, what is left of it without the keys that are not text. -/
inductive DropsBelow (s : Surroundings) : Tree → Tree → List KeyPath → Prop
  | first {tag name : String} {content inner : Tree} {d : Descriptor} {b : Built Instance} (depth : Nat) :
      TagRole.ofTag tag = .type name → s.context.resolve name = some d → s.Resolves depth content inner →
      s.schema.build inner d.decl.shape = .ok b → DropsBelow s (.tagged tag content) inner b.skipped
  | second {tag name : String} {content inner : Tree} {d : Descriptor} {b : Built Instance} {reason : Mismatch}
      (depth : Nat) :
      TagRole.ofTag tag = .type name → s.context.resolve name = some d → s.Resolves depth content inner →
      s.schema.build inner d.decl.shape = .error reason → s.schema.build inner.withTextKeys d.decl.shape = .ok b →
      DropsBelow s (.tagged tag content) inner.withTextKeys b.skipped

/-- In every build below a document the dropped keys stand last. -/
def DropsLast (s : Surroundings) (t : Tree) : Prop :=
  ∀ n ∈ t.nodes, ∀ tree paths, s.DropsBelow n tree paths → tree.droppedLast paths = true

/-- What is left of a node is what is left of it in order, but for the order; and where dropped keys stand last, not
even that. -/
def InOrderFrom (s : Surroundings) (t u : Tree) : Prop :=
  ∃ w, t.LeavesInOrder w ∧ u.Reordered w ∧ (s.DropsLast t → u = w)

/-- Removing keys from a tree in another order, and leaving them out. -/
theorem removeAll_reordered {w : Tree} (horder : t.Reordered w) (hkeys : t.DistinctKeys) :
    (t.removeAll paths).Reordered (w.without paths) ∧
      (t.droppedLast paths = true → t = w → t.removeAll paths = w.without paths) := by
  refine ⟨(Tree.foldl_remove_reordered paths hkeys).trans (horder.without paths), fun hlast hsame => ?_⟩
  rw [← hsame]
  exact Tree.removeAll_eq_without t paths hkeys hlast

/-- **One build.** -/
theorem inOrderFrom_type {tag name : String} {content inner : Tree} {d : Descriptor} {x : Instance}
    (hrole : TagRole.ofTag tag = .type name) (hd : s.context.resolve name = some d)
    (hinner : s.Resolves depth content inner) (hkeys : inner.DistinctKeys) (hpasses : s.Passes d.decl.shape inner x u)
    (hcontent : s.InOrderFrom content inner) : s.InOrderFrom (.tagged tag content) u := by
  obtain ⟨w, hw, horder, hsame⟩ := hcontent
  have hbelow : s.DropsLast (.tagged tag content) → inner = w := fun h => hsame (Tree.forall_nodes_tagged.1 h).2
  cases hpasses with
  | first hb hrest =>
    obtain ⟨-, rfl⟩ := hrest
    obtain ⟨hremoved, hexact⟩ := @removeAll_reordered inner _ w horder hkeys
    refine ⟨_, .type hrole hw (Tree.trims_without w _), hremoved, fun h => hexact ?_ (hbelow h)⟩
    exact (Tree.forall_nodes_tagged.1 h).1 _ _ (.first depth hrole hd hinner hb)
  | second herror _ _ hb hrest =>
    obtain ⟨-, rfl⟩ := hrest
    have hcleaned := (Tree.sheds_withTextKeys inner).keeps.distinctKeys hkeys
    obtain ⟨hremoved, hexact⟩ := @removeAll_reordered inner.withTextKeys _ w.withTextKeys horder.withTextKeys hcleaned
    refine ⟨_, .type hrole hw ((Tree.trims_withTextKeys w).trans (Tree.trims_without _ _)), hremoved, fun h => ?_⟩
    have hlast := (Tree.forall_nodes_tagged.1 h).1 _ _ (.second depth hrole hd hinner herror hb)
    exact hexact hlast (by rw [hbelow h])

theorem inOrderFrom_list {ts us : List Tree} (h : List.Forall₂ s.InOrderFrom ts us) :
    s.InOrderFrom (.list ts) (.list us) := by
  have hitems : ∃ ws, List.Forall₂ Tree.LeavesInOrder ts ws ∧ List.Forall₂ Tree.Reordered us ws ∧
      ((∀ t ∈ ts, s.DropsLast t) → us = ws) := by
    induction h with
    | nil => exact ⟨[], .nil, .nil, fun _ => rfl⟩
    | cons hfirst _ ih =>
      obtain ⟨w, hw, horder, hsame⟩ := hfirst
      obtain ⟨ws, hws, horders, hsames⟩ := ih
      refine ⟨w :: ws, .cons hw hws, .cons horder horders, fun h => ?_⟩
      obtain ⟨ht, hts⟩ := List.forall_mem_cons.1 h
      rw [hsame ht, hsames hts]
  obtain ⟨ws, hws, horders, hsame⟩ := hitems
  refine ⟨.list ws, .list hws, Tree.reordered_list_of_forall₂ horders [], fun h => ?_⟩
  rw [hsame (Tree.forall_nodes_list.1 h).2]

theorem inOrderFrom_map {es fs : List (Tree × Tree)}
    (h : List.Forall₂ (fun e f => s.InOrderFrom e.1 f.1 ∧ s.InOrderFrom e.2 f.2) es fs) :
    s.InOrderFrom (.map es) (.ofEntries fs) := by
  have hentries : ∃ gs : List (Tree × Tree), List.Forall₂ Tree.LeavesInOrder (es.map (·.1)) (gs.map (·.1)) ∧
      List.Forall₂ Tree.LeavesInOrder (es.map (·.2)) (gs.map (·.2)) ∧ List.Forall₂ Tree.ReorderedEntry fs gs ∧
      ((∀ e ∈ es, s.DropsLast e.1 ∧ s.DropsLast e.2) → fs = gs) := by
    induction h with
    | nil => exact ⟨[], .nil, .nil, .nil, fun _ => rfl⟩
    | cons hfirst _ ih =>
      obtain ⟨⟨k, hk, horderKey, hsameKey⟩, w, hw, horder, hsame⟩ := hfirst
      obtain ⟨gs, hkeys, hvalues, horders, hsames⟩ := ih
      refine ⟨(k, w) :: gs, .cons hk hkeys, .cons hw hvalues, .cons ⟨horderKey, horder⟩ horders, fun h => ?_⟩
      obtain ⟨he, hes⟩ := List.forall_mem_cons.1 h
      rw [← hsameKey he.1, ← hsame he.2, ← hsames hes]
  obtain ⟨gs, hkeys, hvalues, horders, hsame⟩ := hentries
  refine ⟨.ofEntries gs, .map hkeys hvalues, Tree.reordered_ofEntries horders, fun h => ?_⟩
  rw [hsame (Tree.forall_nodes_map.1 h).2]

/-- **The whole traversal.** -/
theorem inOrderFrom_of_resolves (t : Tree) : ∀ depth u, s.Resolves depth t u → s.InOrderFrom t u := by
  induction t using Tree.induct with
  | null | flag | number | text =>
    intro depth u h
    obtain ⟨-, rfl⟩ := (resolves_of_isScalar rfl).1 h
    exact ⟨_, .scalar rfl, .refl _, fun _ => rfl⟩
  | list items ih =>
    intro depth u h
    obtain ⟨-, us, hus, rfl⟩ := resolves_list.1 h
    exact inOrderFrom_list (((List.forall₂_and_left _ _).2 ⟨ih, hus⟩).imp fun _ _ h => h.1 _ _ h.2)
  | map entries ih =>
    intro depth u h
    obtain ⟨-, es, hes, rfl⟩ := resolves_map.1 h
    exact inOrderFrom_map (((List.forall₂_and_left _ _).2 ⟨ih, hes⟩).imp fun _ _ h =>
      ⟨h.1.1 _ _ h.2.1, h.1.2 _ _ h.2.2⟩)
  | tagged tag content ih =>
    intro depth u h
    obtain ⟨-, inner, hinner, htag⟩ := resolves_tagged.1 h
    have hcontent := ih _ _ hinner
    unfold ResolvesTagged at htag
    cases hrole : TagRole.ofTag tag with
    | core =>
      rw [hrole] at htag
      obtain rfl := htag
      obtain ⟨w, hw, horder, hsame⟩ := hcontent
      exact ⟨w, .core hrole hw, horder, fun h => hsame (Tree.forall_nodes_tagged.1 h).2⟩
    | variant =>
      rw [hrole] at htag
      obtain rfl := htag
      obtain ⟨w, hw, horder, hsame⟩ := hcontent
      exact ⟨.tagged tag w, .variant hrole hw, horder.tagged tag,
        fun h => congrArg _ (hsame (Tree.forall_nodes_tagged.1 h).2)⟩
    | type name =>
      rw [hrole] at htag
      obtain ⟨d, x, hd, hpasses⟩ := htag
      exact inOrderFrom_type hrole hd hinner (settling content _ _ hinner).2.distinctKeys hpasses hcontent

end Surroundings

namespace Decoder

/-- **The order of an untyped document.** Whatever a tolerant decode of root any leaves of a document is what is left
of it in order, but for the order; and if in every build below the document the dropped keys stand last, no entry has
changed its place. -/
theorem decode_any_in_order (σ : Schema) (context : Context) (limit : Nat) (document v : Tree)
    (h : (decode ⟨.any, context, ⟨false, limit⟩⟩ σ document).outcome = .ok (.untyped v)) :
    (∃ w, document.LeavesInOrder w ∧ v.Reordered w) ∧
      (Surroundings.DropsLast ⟨σ, context, ⟨false, limit⟩⟩ document → document.LeavesInOrder v) := by
  have hresult := decode_any_eq_ok.1 h
  cases hroot : document.rootType? with
  | some root =>
    rw [hroot] at hresult
    obtain ⟨_, _, _, _, -, -, -, htyped⟩ := hresult
    cases htyped
  | none =>
    rw [hroot] at hresult
    obtain ⟨tree, htree, huntyped⟩ := hresult
    obtain rfl := Decoded.untyped.inj huntyped
    obtain ⟨w, hw, horder, hsame⟩ := Surroundings.inOrderFrom_of_resolves document 0 v htree
    exact ⟨⟨w, hw, horder⟩, fun hlast => hsame hlast ▸ hw⟩

/-- A disk with a number as a key in front of its fields, and a key that no disk has between them. -/
def numberedDisk : Tree := .map [(.number (.integer 0), .text "junk"), (.text "size_gb", .number (.integer 1)),
  (.text "rpm", .number (.integer 7200)), (.text "ssd", .flag true)]

/-- Only one field stands behind the key that is removed, so both keep their places. -/
theorem decode_any_in_order_numberedDisk :
    let document : Tree := .list [.tagged "test.Disk" numberedDisk]
    let left : Tree := .list [.map [(.text "size_gb", .number (.integer 1)), (.text "ssd", .flag true)]]
    (decode ⟨.any, disks, ⟨false, 64⟩⟩ Samples.schema document).outcome = .ok (.untyped left) ∧
      Surroundings.DropsLast ⟨Samples.schema, disks, ⟨false, 64⟩⟩ document ∧ document.LeavesInOrder left := by
  intro document left
  have hdecoded : (decode ⟨.any, disks, ⟨false, 64⟩⟩ Samples.schema document).outcome = .ok (.untyped left) := by rfl
  have hlast : Surroundings.DropsLast ⟨Samples.schema, disks, ⟨false, 64⟩⟩ document := by
    intro n hn tree paths hdrops
    -- the disk is the only node with a tag, and there is nothing to resolve in it
    have hbuilt {tag name : String} {content inner : Tree} {d : Descriptor} {depth : Nat}
        (hn : Tree.tagged tag content ∈ document.nodes) (hrole : TagRole.ofTag tag = .type name)
        (hd : disks.resolve name = some d)
        (hinner : Surroundings.Resolves ⟨Samples.schema, disks, ⟨false, 64⟩⟩ depth content inner) :
        d = .own Samples.disk ∧ inner = numberedDisk := by
      obtain ⟨rfl, rfl⟩ : tag = "test.Disk" ∧ content = numberedDisk := by
        simpa [document, numberedDisk, Tree.nodes, Tree.itemsNodes, Tree.entriesNodes] using hn
      have hname : TagRole.ofTag "test.Disk" = .type "test.Disk" := by decide
      have hdisk : disks.resolve "test.Disk" = some (.own Samples.disk) := by decide
      obtain rfl := TagRole.type.inj (hname.symm.trans hrole)
      obtain rfl := Option.some.inj (hdisk.symm.trans hd)
      exact ⟨rfl, ((Surroundings.resolves_key (by decide) (by decide)).1 hinner).2⟩
    cases hdrops with
    | first depth hrole hd hinner hb =>
      -- no disk can be built with the number
      obtain ⟨rfl, rfl⟩ := hbuilt hn hrole hd hinner
      cases hb
    | second depth hrole hd hinner _ hb =>
      obtain ⟨rfl, rfl⟩ := hbuilt hn hrole hd hinner
      obtain rfl := Except.ok.inj hb
      rfl
  exact ⟨hdecoded, hlast, (decode_any_in_order Samples.schema disks 64 document left hdecoded).2 hlast⟩

/-- A list of one disk, a key that no disk has in front of its two fields. -/
def turningDisk : Tree := .list [.tagged "test.Disk" (.map [
  (.text "rpm", .number (.integer 7200)), (.text "size_gb", .number (.integer 1)), (.text "ssd", .flag true)])]

/-- Without that key the fields have changed places. -/
theorem removal_moves_last_entry :
    let left : Tree := .list [.map [(.text "ssd", .flag true), (.text "size_gb", .number (.integer 1))]]
    (decode ⟨.any, disks, ⟨false, 64⟩⟩ Samples.schema turningDisk).outcome = .ok (.untyped left) ∧
      ¬turningDisk.LeavesInOrder left := by
  refine ⟨rfl, fun h => ?_⟩
  cases h with
  | list hitems =>
    obtain ⟨hdisk, -⟩ := List.forall₂_cons.1 hitems
    cases hdisk with
    | core hrole => exact absurd hrole (by decide)
    | type _ hinner htrims =>
      obtain rfl := Tree.LeavesInOrder.eq_of_tagFree (by decide) (by decide) _ hinner
      have hlabels := htrims.entries.keys_sublist.map Tree.label
      exact absurd hlabels (by decide)

end Decoder

end Provisioning
