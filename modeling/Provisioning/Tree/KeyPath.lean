import Provisioning.Tree.Basic

/-!
# Ways to a map key

A `KeyPath` leads from a node to one of the keys below it: through map entries, list items, and the
content of the tag that names a variant. This module writes such a path as text, removes the entry it
leads to, and finds the keys that are not text.
-/

namespace Provisioning

/-- One step from a node to a part of it. -/
inductive Step
  /-- The value of a map entry, by the label of its key. -/
  | key (label : String)
  /-- An item of a list. -/
  | index (position : Nat)
  /-- The content of a variant's tag. -/
  | variant
deriving DecidableEq, Repr, Inhabited

/-- The steps from a node to a key below it; the last one is the key itself. -/
abbrev KeyPath := List Step

namespace KeyPath

/-- The rest of a path's text, once it is known whether a key or an item stands before it. -/
def renderFrom (first : Bool) : KeyPath → String
  | [] => ""
  | .key label :: rest => (if first then label else "." ++ label) ++ renderFrom false rest
  | .index i :: rest => "[" ++ toString i ++ "]" ++ renderFrom false rest
  | .variant :: rest => renderFrom first rest

/-- A path as text: keys with points between them, items in brackets; the step to a variant's content
shows nothing. -/
def render (path : KeyPath) : String :=
  renderFrom true path

end KeyPath

namespace Tree

/-! ## Removing a key -/

/-- Removes the entry that a path leads to. Steps to keys and items look through tags, and so does the
last one. Where the path leads nowhere, or does not end in a key, the tree stays as it is. -/
def remove : KeyPath → Tree → Tree
  | [], t => t
  | .key label :: [], t =>
    t.belowTags fun
      | .map entries => .map (erase label entries)
      | other => other
  | .key label :: rest, t =>
    t.belowTags fun
      | .map entries => .map (adjust label (remove rest) entries)
      | other => other
  | .index i :: rest, t =>
    t.belowTags fun
      | .list items => .list (items.modify i (remove rest))
      | other => other
  | .variant :: rest, .tagged tag content => .tagged tag (remove rest content)
  | .variant :: _, t => t

/-! ## Keys that are not text -/

mutual

/-- Whether a map at some depth, reached through values only, has a key that is not text. -/
def hasOtherKeys : Tree → Bool
  | .list items => itemsHaveOtherKeys items
  | .map entries => entriesHaveOtherKeys entries
  | .tagged _ content => hasOtherKeys content
  | _ => false

/-- Whether an item holds a map with a key that is not text. -/
def itemsHaveOtherKeys : List Tree → Bool
  | [] => false
  | t :: ts => hasOtherKeys t || itemsHaveOtherKeys ts

/-- Whether a key is not text, or a value holds a map with such a key. -/
def entriesHaveOtherKeys : List (Tree × Tree) → Bool
  | [] => false
  | (.text _, v) :: es => hasOtherKeys v || entriesHaveOtherKeys es
  | _ :: _ => true

end

mutual

/-- The tree without the entries whose keys are not text. -/
def withTextKeys : Tree → Tree
  | .list items => .list (itemsWithTextKeys items)
  | .map entries => .map (entriesWithTextKeys entries)
  | .tagged tag content => .tagged tag (withTextKeys content)
  | t => t

/-- The items without the entries whose keys are not text. -/
def itemsWithTextKeys : List Tree → List Tree
  | [] => []
  | t :: ts => withTextKeys t :: itemsWithTextKeys ts

/-- The entries whose keys are text, cleaned below. -/
def entriesWithTextKeys : List (Tree × Tree) → List (Tree × Tree)
  | [] => []
  | (.text s, v) :: es => (.text s, withTextKeys v) :: entriesWithTextKeys es
  | _ :: es => entriesWithTextKeys es

end

mutual

/-- The ways to the keys that are not text, in document order. Below such a key nothing is listed. -/
def otherKeyPaths : Tree → List KeyPath
  | .list items => itemsOtherKeyPaths 0 items
  | .map entries => entriesOtherKeyPaths entries
  | .tagged _ content => (otherKeyPaths content).map (.variant :: ·)
  | _ => []

/-- The ways to such keys inside the items from a position on. -/
def itemsOtherKeyPaths (position : Nat) : List Tree → List KeyPath
  | [] => []
  | t :: ts =>
    (otherKeyPaths t).map (.index position :: ·) ++ itemsOtherKeyPaths (position + 1) ts

/-- The ways to such keys from a map with these entries. -/
def entriesOtherKeyPaths : List (Tree × Tree) → List KeyPath
  | [] => []
  | (.text s, v) :: es => (otherKeyPaths v).map (.key s :: ·) ++ entriesOtherKeyPaths es
  | (k, _) :: es => [.key k.label] :: entriesOtherKeyPaths es

end

end Tree

end Provisioning
