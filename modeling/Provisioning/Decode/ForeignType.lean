import Provisioning.Decode.Decoder

/-!
# Types without a shape

A type that no shape describes can still be asked for as the root of a document. All that is known of it is its name
and what it makes of a node. Nothing else about the decode is new: the tags of the document are resolved in the same
way, a type that the root names is built first, and strictness applies to the keys that are skipped.
-/

namespace Provisioning

/-- A type by its name and what it makes of a node. -/
structure ForeignType where
  name : String
  build : Tree → Except DecodeFailure (Built Instance)

namespace ForeignType

/-- A map to texts under keys that texts stand for. Of two entries under one key the later one stays, however the key is
written in them. Tags around keys and values are looked through. -/
def keyedTexts (keyOf : String → String) :
    List (Tree × Tree) → List (String × Instance) → Except Mismatch (List (String × Instance))
  | [], given => .ok given
  | (k, v) :: rest, given =>
    match k.untagged, v.untagged with
    | .text key, .text value => keyedTexts keyOf rest (insertSorted (keyOf key) (.text value) given)
    | .text _, other => .error (.wrongKind (.ofTree other) .text)
    | other, _ => .error (.wrongKind (.ofTree other) .text)

/-- The type of such maps. Null is the empty map, and no key is skipped. -/
def ofKeyedTexts (name : String) (keyOf : String → String) : ForeignType where
  name
  build node :=
    match node.untagged with
    | .map entries =>
      match keyedTexts keyOf entries [] with
      | .ok given => .ok ⟨.dictionary given, []⟩
      | .error reason => .error (.unbuildable name reason)
    | .null => .ok ⟨.dictionary [], []⟩
    | other => .error (.unbuildable name (.wrongKind (.ofTree other) .dictionary))

end ForeignType

namespace Decoder

end Decoder

end Provisioning
