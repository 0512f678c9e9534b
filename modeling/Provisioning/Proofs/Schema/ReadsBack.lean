import Provisioning.Proofs.Schema.ReadsLike
import Provisioning.Proofs.Schema.Skipped

/-!
# Instances that are read back

An instance is written as a document tree by `Instance.toTree`. It is read back as a shape if that tree is built into
it again and nothing of the tree is skipped (`Schema.ReadsBack`); there is a lemma for each way to put instances
together. Where a build brings values into order, drops repetitions or fills in what is missing, what it made stays as
it is when it is built once more.
-/

namespace Provisioning

/-! ## What was brought into form keeps its form -/

theorem firstOccurrences_eq_self {α : Type} [BEq α] {xs : List α} (h : xs.Pairwise fun x y => (y == x) = false) :
    firstOccurrences xs = xs := by
  induction xs with
  | nil => rfl
  | cons x xs ih =>
    obtain ⟨hfirst, hrest⟩ := List.pairwise_cons.1 h
    have hall : ∀ y ∈ xs, (!(y == x)) = true := fun y hy => by rw [hfirst y hy]; rfl
    rw [firstOccurrences, ih hrest, List.filter_eq_self.2 hall]

/-- A record that was given all of its fields is complete. -/
theorem completeFields_eq_self {given : List (String × Instance)} {declared : List Field}
    {values : List (String × Instance)}
    (hvalues : List.Forall₂ (fun f g => g.1 = f.name ∧ f.elided = false) declared values)
    (hgiven : ∀ g ∈ values, given.lookup g.1 = some g.2) : completeFields given declared = .ok values := by
  induction hvalues with
  | nil => rfl
  | @cons f g declared values hfirst _ ih =>
    obtain ⟨hname, helided⟩ := hfirst
    obtain ⟨hlookup, hrest⟩ := List.forall_mem_cons.1 hgiven
    rw [hname] at hlookup
    rw [completeFields, hlookup, ih hrest, helided, ← hname]
    rfl

/-! ## The tree of an instance -/

namespace Instance

theorem itemTrees_eq (xs : List Instance) : itemTrees xs = xs.map toTree := by
  induction xs with
  | nil => rfl
  | cons x xs ih => rw [itemTrees, ih, List.map_cons]

theorem entryTrees_eq (es : List (String × Instance)) :
    entryTrees es = es.map fun e => (Tree.text e.1, e.2.toTree) := by
  induction es with
  | nil => rfl
  | cons e es ih =>
    obtain ⟨name, x⟩ := e
    rw [entryTrees, ih, List.map_cons]

end Instance

/-- Named values are written as entries whose keys are texts; if the names differ, the keys do. -/
theorem Tree.plain_entryTrees {es : List (String × Instance)} (hnames : (es.map (·.1)).Nodup)
    (hvalues : ∀ e ∈ es, e.2.toTree.Plain) : (Tree.map (Instance.entryTrees es)).Plain := by
  rw [Instance.entryTrees_eq]
  refine plain_map.2 ⟨fun e he => ?_, ?_, fun e he => ?_⟩
  · obtain ⟨g, -, rfl⟩ := List.mem_map.1 he
    rfl
  · rw [List.map_map]
    have hkeys := hnames.map (f := Tree.text) fun _ _ => Tree.text.inj
    rw [List.map_map] at hkeys
    exact hkeys
  · obtain ⟨g, hg, rfl⟩ := List.mem_map.1 he
    exact hvalues g hg

theorem Tree.depth_entryTrees_le {es : List (String × Instance)} {n : Nat} (h : ∀ e ∈ es, e.2.toTree.depth ≤ n) :
    (Tree.map (Instance.entryTrees es)).depth ≤ n + 1 := by
  rw [Instance.entryTrees_eq, Tree.depth]
  refine entriesDepth_le_iff.2 fun e he => ?_
  obtain ⟨g, hg, rfl⟩ := List.mem_map.1 he
  exact ⟨Nat.succ_le_succ (Nat.zero_le n), Nat.succ_le_succ (h g hg)⟩

namespace Schema

variable {σ : Schema} {shape : Shape} {levels : Nat}

/-- The tree that an instance is written as has nothing to resolve, is no deeper than so many levels, and is built
into the instance again without skipping anything. -/
structure ReadsBack (σ : Schema) (shape : Shape) (levels : Nat) (x : Instance) : Prop where
  plain : x.toTree.Plain
  depth_le : x.toTree.depth ≤ levels
  build : σ.build x.toTree shape = .ok ⟨x, []⟩

namespace ReadsBack

theorem text (s : String) : σ.ReadsBack .text levels (.text s) :=
  ⟨Tree.plain_of_isScalar rfl, Nat.zero_le _, rfl⟩

theorem flag (b : Bool) : σ.ReadsBack .flag levels (.flag b) :=
  ⟨Tree.plain_of_isScalar rfl, Nat.zero_le _, rfl⟩

theorem absent : σ.ReadsBack (.optional shape) levels .absent :=
  ⟨Tree.plain_of_isScalar rfl, Nat.zero_le _, rfl⟩

/-- Null stands for an absent value, so that a value that is there must not be written as null. -/
theorem present {x : Instance} (h : σ.ReadsBack shape levels x) (hx : x.toTree ≠ .null) :
    σ.ReadsBack (.optional shape) levels x := by
  refine ⟨h.plain, h.depth_le, ?_⟩
  have hbuild := h.build
  generalize x.toTree = t at hbuild hx ⊢
  cases t with
  | null => exact absurd rfl hx
  | _ => exact hbuild

theorem distinct {xs : List Instance} (h : ∀ x ∈ xs, σ.ReadsBack shape levels x)
    (hdiffer : xs.Pairwise fun x y => (y == x) = false) :
    σ.ReadsBack (.distinct shape) (levels + 1) (.list xs) := by
  have htree : (Instance.list xs).toTree = .list (xs.map Instance.toTree) :=
    congrArg Tree.list (Instance.itemTrees_eq xs)
  have hitems : ReadsItems σ (xs.map Instance.toTree) (List.replicate xs.length shape) (xs.map (⟨·, []⟩)) := by
    clear hdiffer htree
    induction xs with
    | nil => exact .nil
    | cons x xs ih =>
      obtain ⟨hfirst, hrest⟩ := List.forall_mem_cons.1 h
      exact .cons hfirst.build (ih hrest)
  have hread := ReadsParts.items (fun xs => .list (firstOccurrences xs)) hitems
  have hvalues : (xs.map fun x => (⟨x, []⟩ : Built Instance)).map (·.value) = xs := by
    rw [List.map_map]
    exact List.map_id _
  -- no item is repeated, so each of them is its own first occurrence
  rw [hvalues, firstOccurrences_eq_self hdiffer, skippedInItems_eq_nil (by simp) 0] at hread
  refine ⟨?_, ?_, ?_⟩
  · rw [htree]
    refine Tree.plain_list.2 fun t ht => ?_
    obtain ⟨x, hx, rfl⟩ := List.mem_map.1 ht
    exact (h x hx).plain
  · rw [htree, Tree.depth]
    refine Tree.itemsDepth_le_iff.2 fun t ht => ?_
    obtain ⟨x, hx, rfl⟩ := List.mem_map.1 ht
    exact Nat.succ_le_succ (h x hx).depth_le
  · rw [htree]
    exact build_list_eq_ok_iff.2 ⟨_, .distinct shape xs.length, hread⟩

/-- Named values that are wanted under their own names are read as they are. -/
theorem readsEntries {wants : String → Option (String × Shape)} {es : List (String × Instance)}
    (h : ∀ e ∈ es, ∃ shape, wants e.1 = some (e.1, shape) ∧ σ.ReadsBack shape levels e.2) :
    ReadsEntries σ wants (Instance.entryTrees es) (es.map fun e => ⟨some e, []⟩) := by
  rw [Instance.entryTrees_eq, ReadsEntries, List.forall₂_map_left_iff, List.forall₂_map_right_iff, List.forall₂_same]
  intro e he
  obtain ⟨shape, hwants, hback⟩ := h e he
  exact .wanted rfl hwants hback.build

theorem dictionary {es : List (String × Instance)} (hsorted : es.Pairwise fun e f => e.1 < f.1)
    (h : ∀ e ∈ es, σ.ReadsBack shape levels e.2) :
    σ.ReadsBack (.dictionary shape) (levels + 1) (.dictionary es) := by
  have hnames : (es.map (·.1)).Nodup := by
    rw [List.Nodup, List.pairwise_map]
    refine hsorted.imp fun {e f} hlt heq => ?_
    rw [heq] at hlt
    exact String.lt_irrefl f.1 hlt
  have hentries : ReadsEntries σ (MapReader.values shape).wants (Instance.entryTrees es)
      (es.map fun e => ⟨some e, []⟩) := readsEntries fun e he => ⟨shape, rfl, h e he⟩
  have hfinish : (MapReader.values shape).finish (EntryReading.allGiven (es.map fun e => ⟨some e, []⟩)) =
      some (.dictionary es) := by
    rw [allGiven_map_some, MapReader.finish, foldl_insertSorted_of_sorted hsorted, List.nil_append]
  have hread := ReadsParts.entries hentries hfinish
  rw [allSkipped_map_some] at hread
  exact ⟨Tree.plain_entryTrees hnames fun e he => (h e he).plain,
    Tree.depth_entryTrees_le fun e he => (h e he).depth_le,
    build_map_eq_ok_iff.2 ⟨_, .dictionary shape, hread⟩⟩

end ReadsBack

/-- The fields of a record have different names, and each is given by its name and no other field's. -/
structure NamesAreKeys (declared : List Field) : Prop where
  nodup : (declared.map (·.name)).Nodup
  wanted : ∀ f ∈ declared, wantsField declared f.name = some (f.name, f.shape)

theorem ReadsBack.record {name : String} {values : List (String × Instance)} (hkeys : NamesAreKeys (σ.fields name))
    (hvalues : List.Forall₂ (fun f g => (g.1 = f.name ∧ f.elided = false) ∧ σ.ReadsBack f.shape levels g.2)
      (σ.fields name) values) :
    σ.ReadsBack (.record name) (levels + 1) (.record values) := by
  have hsame : values.map (·.1) = (σ.fields name).map (·.name) := by
    generalize σ.fields name = declared at hvalues
    induction hvalues with
    | nil => rfl
    | cons hfirst _ ih => rw [List.map_cons, List.map_cons, hfirst.1.1, ih]
  have hnames : (values.map (·.1)).Nodup := hsame ▸ hkeys.nodup
  have hback : ∀ g ∈ values, ∃ shape, wantsField (σ.fields name) g.1 = some (g.1, shape) ∧
      σ.ReadsBack shape levels g.2 := by
    intro g hg
    obtain ⟨f, hf, ⟨hname, -⟩, hback⟩ := (forall₂_partners hvalues).2 g hg
    rw [hname]
    exact ⟨f.shape, hkeys.wanted f hf, hback⟩
  -- every field is given under its own name, so none falls back and no key is skipped
  have hentries : ReadsEntries σ (MapReader.fields (σ.fields name)).wants (Instance.entryTrees values)
      (values.map fun e => ⟨some e, []⟩) := readsEntries hback
  have hcomplete : completeFields values (σ.fields name) = .ok values :=
    completeFields_eq_self (hvalues.imp fun _ _ h => h.1) fun g hg => lookup_eq_some_of_mem hnames hg
  have hfinish : (MapReader.fields (σ.fields name)).finish (EntryReading.allGiven (values.map fun e => ⟨some e, []⟩)) =
      some (.record values) := by
    rw [allGiven_map_some, MapReader.finish, if_pos hnames, hcomplete]
    rfl
  have hread := ReadsParts.entries hentries hfinish
  rw [allSkipped_map_some] at hread
  refine ⟨Tree.plain_entryTrees hnames fun g hg => ?_, Tree.depth_entryTrees_le fun g hg => ?_,
    build_map_eq_ok_iff.2 ⟨_, .record name, hread⟩⟩
  · obtain ⟨shape, -, h⟩ := hback g hg
    exact h.plain
  · obtain ⟨shape, -, h⟩ := hback g hg
    exact h.depth_le

end Schema

end Provisioning
