import Provisioning.Tree.Basic

/-!
# How deep and how large a tree is

`Tree.height` counts one level for each map, list and tag, in keys as in values. `Tree.entryCount` counts
map entries, those inside keys and values included.
-/

namespace Provisioning.Tree

mutual

/-- The number of maps, lists and tags on the longest way down. -/
def height : Tree → Nat
  | .list items => itemsHeight items + 1
  | .map entries => entriesHeight entries + 1
  | .tagged _ content => height content + 1
  | _ => 0

/-- The height of the highest item. -/
def itemsHeight : List Tree → Nat
  | [] => 0
  | t :: ts => max (height t) (itemsHeight ts)

/-- The height of the highest key or value. -/
def entriesHeight : List (Tree × Tree) → Nat
  | [] => 0
  | (k, v) :: es => max (max (height k) (height v)) (entriesHeight es)

end

mutual

/-- The number of map entries, at any depth. -/
def entryCount : Tree → Nat
  | .list items => itemsEntryCount items
  | .map entries => entriesEntryCount entries
  | .tagged _ content => entryCount content
  | _ => 0

/-- The number of map entries inside the items of a list. -/
def itemsEntryCount : List Tree → Nat
  | [] => 0
  | t :: ts => entryCount t + itemsEntryCount ts

/-- The number of these entries and of those inside them. -/
def entriesEntryCount : List (Tree × Tree) → Nat
  | [] => 0
  | (k, v) :: es => 1 + entryCount k + entryCount v + entriesEntryCount es

end

end Provisioning.Tree
