import Provisioning.Fault
import Provisioning.Schema.Mismatch

/-!
# Places in a document, and why a decode fails there

A `Place` is the text of the way from the root to a node. A `DecodeFailure` is the cause of a failed decode;
`DecodeFailure.toFault` gives its wording and its chain of causes.
-/

namespace Provisioning

/-- The way from the root of a document to a node, as text. -/
structure Place where
  text : String
deriving DecidableEq, Repr, Inhabited

namespace Place

/-- The root of the document. -/
def root : Place := ⟨""⟩

/-- The value of a map entry, by the label of its key. -/
def entry (p : Place) (label : String) : Place :=
  ⟨if p.text = "" then label else p.text ++ "." ++ label⟩

/-- An item of a list. -/
def item (p : Place) (position : Nat) : Place :=
  ⟨p.text ++ "[" ++ toString position ++ "]"⟩

/-- The text of a key below this place, from its text seen from here. -/
def qualify (p : Place) (key : String) : String :=
  if p.text = "" then key
  else if key.toList.head? = some '[' then p.text ++ key
  else p.text ++ "." ++ key

/-- The texts of keys below this place. -/
def qualifyAll (p : Place) (paths : List KeyPath) : List String :=
  paths.map fun path => p.qualify path.render

/-- The place in a message. -/
def describe (p : Place) : String := if p.text = "" then "<root>" else p.text

end Place

/-- Why a document cannot be decoded. -/
inductive DecodeFailure
  /-- A node lies deeper than allowed. -/
  | tooDeep (limit : Nat) (place : Place)
  /-- The context knows no type of the name in a tag; `known` are the names it lists. -/
  | unresolved (name : String) (place : Place) (known : List String)
  /-- Strict decoding met keys that nothing takes. -/
  | unknownFields (typeName : String) (paths : List String)
  /-- A node does not fit the shape of a type. -/
  | unbuildable (typeName : String) (reason : Mismatch)
  /-- A tagged node below the root cannot be built. -/
  | nested (typeName : String) (place : Place) (inner : DecodeFailure)
deriving DecidableEq, Repr

namespace DecodeFailure

/-- The wording of a look-up that found nothing. -/
def unknownTypeMessage (name : String) (known : List String) : String :=
  "no type named `" ++ name ++ "` in the resolution context" ++
    (if known.isEmpty then "" else " (known: " ++ ", ".intercalate known ++ ")")

/-- The wording of a failure. -/
def message : DecodeFailure → String
  | .tooDeep limit place =>
    "document nests deeper than " ++ toString limit ++ " levels at `" ++ place.describe ++ "`"
  | .unresolved name place _ =>
    "cannot resolve tag `!" ++ name ++ "` at `" ++ place.describe ++ "`"
  | .unknownFields typeName paths =>
    "unknown field(s) for `" ++ typeName ++ "`: " ++ ", ".intercalate paths
  | .unbuildable typeName reason => "cannot build `" ++ typeName ++ "`: " ++ reason.message
  | .nested typeName place inner =>
    "cannot decode `" ++ typeName ++ "` at `" ++ place.describe ++ "`: " ++ inner.message

/-- The causes below a failure, the direct one first. -/
def causes : DecodeFailure → List Cause
  | .tooDeep _ _ => []
  | .unresolved name _ known => [.fault .typeResolution (unknownTypeMessage name known) none]
  | .unknownFields _ _ => []
  | .unbuildable _ reason => [.foreign reason.message]
  | .nested _ _ inner => .fault .decode inner.message none :: inner.causes

/-- The fault of a failed decode. -/
def toFault (f : DecodeFailure) : Fault := ⟨.decode, f.message, none, f.causes⟩

end DecodeFailure

end Provisioning
