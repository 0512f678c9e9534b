import Provisioning.Tree.Measure
import Provisioning.Tree.KeyPath
import Provisioning.TypeName

/-!
# The nodes of a tree, and the tree without the tags that are resolved

`Tree.nodes` lists a tree and all that is below it, map keys included, so that "everywhere in the document"
is a statement about the members of one list. `Tree.bare` is the tree that is left once the type tags and
the core tags are gone, and `Tree.depth` counts how many maps, lists and tags stand around the deepest node.

The depth is not the height: a list without items has a level of its own, but nothing stands on it.
-/

namespace Provisioning.Tree

/-- Induction over trees: a list after its items, a map after its keys and values. -/
theorem induct {motive : Tree → Prop} (null : motive .null) (flag : ∀ b, motive (.flag b))
    (number : ∀ n, motive (.number n)) (text : ∀ s, motive (.text s))
    (list : ∀ items, (∀ t ∈ items, motive t) → motive (.list items))
    (map : ∀ entries, (∀ e ∈ entries, motive e.1 ∧ motive e.2) → motive (.map entries))
    (tagged : ∀ tag content, motive content → motive (.tagged tag content)) (t : Tree) :
    motive t := by
  refine @Tree.rec motive (fun ts => ∀ t ∈ ts, motive t)
    (fun es => ∀ e ∈ es, motive e.1 ∧ motive e.2) (fun e => motive e.1 ∧ motive e.2)
    null flag number text list map tagged ?_ ?_ ?_ ?_ ?_ t
  · exact fun t h => absurd h (List.not_mem_nil)
  · exact fun t ts ht hts u hu => (List.mem_cons.1 hu).elim (fun h => h ▸ ht) (hts u)
  · exact fun e h => absurd h (List.not_mem_nil)
  · exact fun e es he hes f hf => (List.mem_cons.1 hf).elim (fun h => h ▸ he) (hes f)
  · exact fun k v hk hv => ⟨hk, hv⟩

/-! ## Nodes -/

mutual

/-- A tree and every node below it, each before those below it and each map key before its value. -/
def nodes : Tree → List Tree
  | .list items => .list items :: itemsNodes items
  | .map entries => .map entries :: entriesNodes entries
  | .tagged tag content => .tagged tag content :: nodes content
  | t => [t]

/-- The nodes of the items of a list. -/
def itemsNodes : List Tree → List Tree
  | [] => []
  | t :: ts => nodes t ++ itemsNodes ts

/-- The nodes of the keys and values of map entries. -/
def entriesNodes : List (Tree × Tree) → List Tree
  | [] => []
  | (k, v) :: es => nodes k ++ nodes v ++ entriesNodes es

end

theorem itemsNodes_eq (items : List Tree) : itemsNodes items = items.flatMap nodes := by
  induction items with
  | nil => rfl
  | cons t ts ih => rw [itemsNodes, ih, List.flatMap_cons]

theorem entriesNodes_eq (entries : List (Tree × Tree)) :
    entriesNodes entries = entries.flatMap (fun e => nodes e.1 ++ nodes e.2) := by
  induction entries with
  | nil => rfl
  | cons e es ih =>
    obtain ⟨k, v⟩ := e
    rw [entriesNodes, ih, List.flatMap_cons]

/-- A property of the nodes of a list is one of the list and of the nodes of its items. -/
theorem forall_nodes_list {p : Tree → Prop} {items : List Tree} :
    (∀ n ∈ (Tree.list items).nodes, p n) ↔ p (.list items) ∧ ∀ t ∈ items, ∀ n ∈ t.nodes, p n := by
  rw [nodes, itemsNodes_eq, List.forall_mem_cons, List.forall_mem_flatMap]

/-- A property of the nodes of a map is one of the map and of the nodes of its keys and values. -/
theorem forall_nodes_map {p : Tree → Prop} {entries : List (Tree × Tree)} :
    (∀ n ∈ (Tree.map entries).nodes, p n) ↔
      p (.map entries) ∧ ∀ e ∈ entries, (∀ n ∈ e.1.nodes, p n) ∧ ∀ n ∈ e.2.nodes, p n := by
  simp only [nodes, entriesNodes_eq, List.forall_mem_cons, List.forall_mem_flatMap,
    List.forall_mem_append]

/-- A property of the nodes of a tagged node is one of it and of the nodes of its content. -/
theorem forall_nodes_tagged {p : Tree → Prop} {tag : String} {content : Tree} :
    (∀ n ∈ (Tree.tagged tag content).nodes, p n) ↔
      p (.tagged tag content) ∧ ∀ n ∈ content.nodes, p n := by
  rw [nodes, List.forall_mem_cons]

/-- A property of all nodes of a tree is one of all nodes of each of them. -/
theorem forall_nodes_of_forall_nodes {p : Tree → Prop} {t : Tree} (h : ∀ n ∈ t.nodes, p n) :
    ∀ u ∈ t.nodes, ∀ n ∈ u.nodes, p n := by
  induction t using induct with
  | null | flag | number | text =>
    intro u hu
    obtain rfl := List.mem_singleton.1 hu
    exact h
  | list ts ih =>
    exact forall_nodes_list.2 ⟨h, fun t ht => ih t ht ((forall_nodes_list.1 h).2 t ht)⟩
  | map es ih =>
    have hes := (forall_nodes_map.1 h).2
    exact forall_nodes_map.2 ⟨h, fun e he => ⟨(ih e he).1 (hes e he).1, (ih e he).2 (hes e he).2⟩⟩
  | tagged tag content ih => exact forall_nodes_tagged.2 ⟨h, ih (forall_nodes_tagged.1 h).2⟩

/-! ## The names in type tags -/

/-- The name in the tag of this very node, if the tag names a type. -/
def typeTag? : Tree → Option String
  | .tagged tag _ =>
    match TagRole.ofTag tag with
    | .type name => some name
    | _ => none
  | _ => none

/-- The names in the type tags of a tree, each before those in what the tag stands on. -/
def typeTags (t : Tree) : List String := t.nodes.filterMap typeTag?

theorem typeTags_list (ts : List Tree) : (Tree.list ts).typeTags = ts.flatMap typeTags := by
  rw [typeTags, nodes, itemsNodes_eq, List.filterMap_cons_none rfl, List.filterMap_flatMap]
  rfl

theorem typeTags_map (es : List (Tree × Tree)) :
    (Tree.map es).typeTags = es.flatMap fun e => e.1.typeTags ++ e.2.typeTags := by
  rw [typeTags, nodes, entriesNodes_eq, List.filterMap_cons_none rfl, List.filterMap_flatMap]
  simp only [List.filterMap_append]
  rfl

theorem typeTags_of_type {tag name : String} {content : Tree} (h : TagRole.ofTag tag = .type name) :
    (Tree.tagged tag content).typeTags = name :: content.typeTags := by
  have hname : (Tree.tagged tag content).typeTag? = some name := by rw [typeTag?, h]
  rw [typeTags, nodes, List.filterMap_cons_some hname]
  rfl

theorem typeTag?_eq_none {tag : String} {content : Tree} (h : ∀ name, TagRole.ofTag tag ≠ .type name) :
    (Tree.tagged tag content).typeTag? = none := by
  rw [typeTag?]
  split
  · exact absurd ‹_› (h _)
  · rfl

theorem typeTags_of_ne_type {tag : String} {content : Tree} (h : ∀ name, TagRole.ofTag tag ≠ .type name) :
    (Tree.tagged tag content).typeTags = content.typeTags := by
  rw [typeTags, nodes, List.filterMap_cons_none (typeTag?_eq_none h)]
  rfl

/-! ## The tree without the tags that are resolved -/

mutual

/-- The tree without its type tags and core tags. A map is put together again entry by entry, so of two
keys that become equal the later value stays. -/
def bare : Tree → Tree
  | .list items => .list (itemsBare items)
  | .map entries => ofEntries (entriesBare entries)
  | .tagged tag content =>
    match TagRole.ofTag tag with
    | .variant => .tagged tag (bare content)
    | _ => bare content
  | t => t

/-- The items of a list without such tags. -/
def itemsBare : List Tree → List Tree
  | [] => []
  | t :: ts => bare t :: itemsBare ts

/-- The entries of a map without such tags, not yet put together. -/
def entriesBare : List (Tree × Tree) → List (Tree × Tree)
  | [] => []
  | (k, v) :: es => (bare k, bare v) :: entriesBare es

end

theorem itemsBare_eq (items : List Tree) : itemsBare items = items.map bare := by
  induction items with
  | nil => rfl
  | cons t ts ih => rw [itemsBare, ih, List.map_cons]

theorem entriesBare_eq (entries : List (Tree × Tree)) :
    entriesBare entries = entries.map (fun e => (e.1.bare, e.2.bare)) := by
  induction entries with
  | nil => rfl
  | cons e es ih =>
    obtain ⟨k, v⟩ := e
    rw [entriesBare, ih, List.map_cons]

/-! ## Depth -/

mutual

/-- How many maps, lists and tags stand around the deepest node. -/
def depth : Tree → Nat
  | .list items => itemsDepth items
  | .map entries => entriesDepth entries
  | .tagged _ content => depth content + 1
  | _ => 0

/-- The depth of the deepest item, seen from the list. -/
def itemsDepth : List Tree → Nat
  | [] => 0
  | t :: ts => max (depth t + 1) (itemsDepth ts)

/-- The depth of the deepest key or value, seen from the map. -/
def entriesDepth : List (Tree × Tree) → Nat
  | [] => 0
  | (k, v) :: es => max (max (depth k + 1) (depth v + 1)) (entriesDepth es)

end

theorem itemsDepth_le_iff {items : List Tree} {m : Nat} :
    itemsDepth items ≤ m ↔ ∀ t ∈ items, t.depth + 1 ≤ m := by
  induction items with
  | nil => simp [itemsDepth]
  | cons t ts ih => rw [itemsDepth, Nat.max_le, ih, List.forall_mem_cons]

theorem entriesDepth_le_iff {entries : List (Tree × Tree)} {m : Nat} :
    entriesDepth entries ≤ m ↔ ∀ e ∈ entries, e.1.depth + 1 ≤ m ∧ e.2.depth + 1 ≤ m := by
  induction entries with
  | nil => simp [entriesDepth]
  | cons e es ih =>
    obtain ⟨k, v⟩ := e
    rw [entriesDepth, Nat.max_le, Nat.max_le, ih, List.forall_mem_cons]

theorem itemsHeight_le_iff {items : List Tree} {m : Nat} :
    itemsHeight items ≤ m ↔ ∀ t ∈ items, t.height ≤ m := by
  induction items with
  | nil => simp [itemsHeight]
  | cons t ts ih => rw [itemsHeight, Nat.max_le, ih, List.forall_mem_cons]

theorem entriesHeight_le_iff {entries : List (Tree × Tree)} {m : Nat} :
    entriesHeight entries ≤ m ↔ ∀ e ∈ entries, e.1.height ≤ m ∧ e.2.height ≤ m := by
  induction entries with
  | nil => simp [entriesHeight]
  | cons e es ih =>
    obtain ⟨k, v⟩ := e
    rw [entriesHeight, Nat.max_le, Nat.max_le, ih, List.forall_mem_cons]

/-- Only a list or a map without anything in it is a level that no node is below. -/
theorem height_le_depth_succ (t : Tree) : t.height ≤ t.depth + 1 := by
  induction t using induct with
  | null | flag | number | text => simp [height]
  | list items ih =>
    rw [depth, height]
    refine Nat.succ_le_succ (itemsHeight_le_iff.2 fun t ht => ?_)
    have hle := itemsDepth_le_iff.1 (Nat.le_refl _) t ht
    have := ih t ht
    omega
  | map entries ih =>
    rw [depth, height]
    refine Nat.succ_le_succ (entriesHeight_le_iff.2 fun e he => ?_)
    have hle := entriesDepth_le_iff.1 (Nat.le_refl _) e he
    have := ih e he
    omega
  | tagged tag content ih =>
    rw [depth, height]
    exact Nat.succ_le_succ ih

end Provisioning.Tree
