import Provisioning.Text.Quoted
import Provisioning.Text.Blank

/-!
# Type names and tags

A type name is namespaced: it has a point inside, and neither blanks nor exclamation marks.
`TypeName.problem?` says what is wrong with a name. `TagRole.ofTag` says what a tag means: a core tag of the
document language, the name of a type, or a variant.
-/

namespace Provisioning

namespace TypeName

/-- What makes a text no type name. -/
inductive Problem
  | empty
  | badCharacter (name : String) (character : Char)
  | notNamespaced (name : String)
deriving DecidableEq, Repr

/-- Whether a character may not stand in a type name. -/
def isForbidden (c : Char) : Bool :=
  Text.isBlank c || c == '!'

/-- A text without the points at its ends. -/
def trimPoints (name : String) : String :=
  let inner := name.toList.dropWhile (· = '.')
  String.ofList (inner.reverse.dropWhile (· = '.')).reverse

/-- Whether a text has a point, and none at its ends. -/
def isNamespaced (name : String) : Bool :=
  let cs := name.toList
  cs.contains '.' && cs.head? != some '.' && cs.getLast? != some '.'

/-- The first thing that is wrong with a type name, if anything is. -/
def problem? (name : String) : Option Problem :=
  if name = "" then some .empty
  else match name.toList.find? isForbidden with
    | some c => some (.badCharacter name c)
    | none => if isNamespaced name then none else some (.notNamespaced name)

/-- The wording of a problem. -/
def Problem.message : Problem → String
  | .empty => "type name cannot be empty"
  | .badCharacter name c =>
    "type name `" ++ name ++ "` contains invalid character " ++ Text.quoteChar c
  | .notNamespaced name =>
    "type name `" ++ name ++ "` must be namespaced, as in `vendor." ++ trimPoints name ++ "`"

end TypeName

/-- What a tag means. -/
inductive TagRole
  /-- A tag of the document language itself; it is dropped. -/
  | core
  /-- The name of a type. -/
  | type (name : String)
  /-- Anything else, such as the name of a variant; it is kept. -/
  | variant
deriving DecidableEq, Repr

namespace TagRole

/-- What the tags of the document language begin with. -/
def corePrefix : String := "tag:yaml.org,2002:"

/-- The tags of the document language, after their common beginning. -/
def coreNames : List String :=
  ["str", "int", "float", "bool", "null", "map", "seq", "binary", "timestamp"]

/-- A tag without the common beginning of the core tags, and whether it had that. -/
def splitCore (tag : String) : Bool × String :=
  match corePrefix.toList.isPrefixOf? tag.toList with
  | some rest => (true, String.ofList rest)
  | none => (false, tag)

/-- The meaning of a tag, which is given without its exclamation mark. -/
def ofTag (tag : String) : TagRole :=
  let (global, name) := splitCore tag
  if global && coreNames.contains name then .core
  else if name.toList.contains '.' then .type name
  else .variant

end TagRole

end Provisioning
