import Provisioning.Decimal.Text

/-!
# Document trees

What a document says once its text is read: scalars, lists, maps whose keys are themselves trees, and
tagged nodes. Map entries keep the order of the document. `Tree.same` is the equality that decides
whether two map keys are one key.
-/

namespace Provisioning

open Decimal

/-- A number of a document. An integer is never the same number as a floating-point one. -/
inductive Number
  | integer (value : Int)
  | real (value : Binary64)
deriving DecidableEq, Repr, Inhabited

namespace Number

/-- Equality as a key. -/
def same : Number → Number → Bool
  | .integer a, .integer b => a == b
  | .real a, .real b => a.same b
  | _, _ => false

/-- A number as a document writes it. -/
def text : Number → String
  | .integer n => toString n
  | .real x => NumberStyle.document.write x

@[simp] theorem same_self (n : Number) : n.same n = true := by
  cases n <;> simp [same]

end Number

/-- A document or a part of one. A tag is held without its leading exclamation mark. -/
inductive Tree
  | null
  | flag (value : Bool)
  | number (value : Number)
  | text (value : String)
  | list (items : List Tree)
  | map (entries : List (Tree × Tree))
  | tagged (tag : String) (content : Tree)
deriving Repr, Inhabited, BEq

/-- A tag without its leading exclamation mark; the mark alone is a tag of its own. -/
def tagName (tag : String) : String :=
  match tag.toList with
  | '!' :: c :: rest => String.ofList (c :: rest)
  | _ => tag

namespace Tree

/-! ## Equality of keys -/

mutual

/-- Equality as a key: numbers by value, lists in order, maps as sets of entries, and a tagged node
never equals its bare content. -/
def same : Tree → Tree → Bool
  | .null, .null => true
  | .flag a, .flag b => a == b
  | .number a, .number b => a.same b
  | .text a, .text b => a == b
  | .list xs, .list ys => sameItems xs ys
  | .map es, .map fs => es.length == fs.length && coveredBy es fs
  | .tagged s a, .tagged t b => s == t && same a b
  | _, _ => false

/-- Equality of lists as keys, item by item. -/
def sameItems : List Tree → List Tree → Bool
  | [], [] => true
  | x :: xs, y :: ys => same x y && sameItems xs ys
  | _, _ => false

/-- Whether every entry has an equal entry among `others`. -/
def coveredBy : List (Tree × Tree) → List (Tree × Tree) → Bool
  | [], _ => true
  | (k, v) :: es, others => others.any (fun f => same k f.1 && same v f.2) && coveredBy es others

end

/-! ## Tags -/

/-- A node without the tags around it. -/
def untagged : Tree → Tree
  | .tagged _ content => content.untagged
  | t => t

/-- Applies `f` below the tags around a node, which stay. -/
def belowTags (f : Tree → Tree) : Tree → Tree
  | .tagged tag content => .tagged tag (content.belowTags f)
  | t => f t

/-! ## Map entries -/

/-- The value under `key`. -/
def find? (key : Tree) (entries : List (Tree × Tree)) : Option Tree :=
  (entries.find? (fun e => e.1.same key)).map (·.2)

/-- Sets the value under `key`. A key that is there keeps its place and its spelling. -/
def insert (key value : Tree) : List (Tree × Tree) → List (Tree × Tree)
  | [] => [(key, value)]
  | (k, v) :: es => if k.same key then (k, value) :: es else (k, v) :: insert key value es

/-- A map with the given entries, set one after another. -/
def ofEntries (entries : List (Tree × Tree)) : Tree :=
  .map (entries.foldl (fun es e => insert e.1 e.2 es) [])

/-- Whether a tree is the given text, without a tag. -/
def isText (s : String) : Tree → Bool
  | .text t => t == s
  | _ => false

/-- Changes the value under the text key `key`, if there is one. -/
def adjust (key : String) (f : Tree → Tree) : List (Tree × Tree) → List (Tree × Tree)
  | [] => []
  | (k, v) :: es => if k.isText key then (k, f v) :: es else (k, v) :: adjust key f es

/-- Removes the entry under the text key `key`. The last entry of the map takes the place of the
removed one, so the entries between keep their places. -/
def erase (key : String) (entries : List (Tree × Tree)) : List (Tree × Tree) :=
  match entries.findIdx? (fun e => e.1.isText key), entries.getLast? with
  | some i, some last => (entries.set i last).dropLast
  | _, _ => entries

/-! ## Labels -/

/-- A map key as a step of a location. -/
def label : Tree → String
  | .text s => s
  | .number n => n.text
  | .flag b => if b then "true" else "false"
  | .null => "~"
  | _ => "<complex key>"

end Tree

end Provisioning
