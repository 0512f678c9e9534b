import Provisioning.Tree.KeyPath

/-!
# Schemas

A `Shape` says what a document node must look like. Records and choices are named and declared in a
`Schema`, so a record may hold itself. An `Instance` is what a node that fits its shape is built into.

The types of this library and those of its plugins have shapes, and what is said of all types is said of the
types that have one.
-/

namespace Provisioning

/-- What a node must look like. Not every type has a shape. Left out are numbers with a sign or a fraction, tuples
outside a choice, choices that a field and no tag tells apart, maps with keys that are not texts, fields that take
whatever stands there by ignoring it, and whatever else reads a node in a way of its own. -/
inductive Shape
  | text
  | flag
  /-- A natural number below `2 ^ bits`. -/
  | unsigned (bits : Nat)
  | list (items : Shape)
  /-- A list of which repeated items count once; null is the empty list. -/
  | distinct (items : Shape)
  /-- A map from texts to values of one shape. -/
  | dictionary (values : Shape)
  | record (name : String)
  | choice (name : String)
  /-- An untagged null, or the shape. -/
  | optional (of : Shape)
deriving DecidableEq, Repr, Inhabited

namespace Shape

/-- The shape of a value that is there. -/
def base : Shape → Shape
  | .optional s => s.base
  | s => s

/-- Whether an untagged null stands for an absent value. -/
def isOptional : Shape → Bool
  | .optional _ => true
  | _ => false

end Shape

/-- What nodes are built into. Record fields stand in the order of their declaration, dictionary entries
in the order of their keys. -/
inductive Instance
  | absent
  | text (value : String)
  | flag (value : Bool)
  | unsigned (value : Nat)
  | list (items : List Instance)
  | dictionary (entries : List (String × Instance))
  | record (fields : List (String × Instance))
  /-- A variant that carries nothing. -/
  | bare (variant : String)
  | variant (name : String) (content : Instance)
deriving Repr, Inhabited

namespace Instance

mutual

/-- Whether two instances are the same. -/
def same : Instance → Instance → Bool
  | .absent, .absent => true
  | .text a, .text b => a == b
  | .flag a, .flag b => a == b
  | .unsigned a, .unsigned b => a == b
  | .list xs, .list ys => sameItems xs ys
  | .dictionary es, .dictionary fs => sameEntries es fs
  | .record es, .record fs => sameEntries es fs
  | .bare a, .bare b => a == b
  | .variant a x, .variant b y => a == b && same x y
  | _, _ => false

/-- Whether two lists have the same items. -/
def sameItems : List Instance → List Instance → Bool
  | [], [] => true
  | x :: xs, y :: ys => same x y && sameItems xs ys
  | _, _ => false

/-- Whether two lists have the same named values. -/
def sameEntries : List (String × Instance) → List (String × Instance) → Bool
  | [], [] => true
  | (a, x) :: es, (b, y) :: fs => a == b && same x y && sameEntries es fs
  | _, _ => false

end

instance : BEq Instance := ⟨same⟩

end Instance

/-- A list without repetitions: of equal items the first stays. -/
def firstOccurrences {α : Type} [BEq α] : List α → List α
  | [] => []
  | x :: xs => x :: (firstOccurrences xs).filter (fun y => !(y == x))

/-- A field of a record. -/
structure Field where
  name : String
  /-- Other keys under which a document may give the field. -/
  aliases : List String := []
  shape : Shape
  /-- The value of a field that the document does not give; without one the field is required. -/
  fallback : Option Instance := none
  /-- Whether an instance leaves the field out when it is absent. -/
  elided : Bool := false
deriving Inhabited

namespace Field

/-- Whether a document key gives this field. -/
def isGivenBy (f : Field) (key : String) : Bool :=
  f.name == key || f.aliases.contains key

end Field

/-- What a variant carries. -/
inductive Payload
  | nothing
  | one (shape : Shape)
  | several (shapes : List Shape)
  | fields (fields : List Field)
deriving Inhabited

/-- The declarations that record and choice shapes refer to. -/
structure Schema where
  fields : String → List Field
  variants : String → List (String × Payload)

namespace Instance

mutual

/-- An instance as a document tree: an absent value is null, a variant with content is a tagged node. -/
def toTree : Instance → Tree
  | .absent => .null
  | .text s => .text s
  | .flag b => .flag b
  | .unsigned n => .number (.integer n)
  | .list items => .list (itemTrees items)
  | .dictionary entries => .map (entryTrees entries)
  | .record fields => .map (entryTrees fields)
  | .bare name => .text name
  | .variant name content => .tagged name (toTree content)

/-- The items of a list as document trees. -/
def itemTrees : List Instance → List Tree
  | [] => []
  | x :: xs => toTree x :: itemTrees xs

/-- Named values as map entries. -/
def entryTrees : List (String × Instance) → List (Tree × Tree)
  | [] => []
  | (name, x) :: rest => (.text name, toTree x) :: entryTrees rest

end

end Instance

end Provisioning
