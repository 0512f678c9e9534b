import Provisioning.Directory
import Provisioning.Profile.Basic

/-!
# Catalogs of profiles

Profiles under identifiers. A look-up takes the exact identifier if there is one, and otherwise the first
identifier, in order, that differs only in the case of ASCII letters.
-/

namespace Provisioning

/-- Whether two texts are equal up to the case of ASCII letters. -/
def equalUpToCase (a b : String) : Bool :=
  a.toList.map Char.toLower == b.toList.map Char.toLower

/-- Profiles under identifiers. -/
structure Catalog where
  profiles : Directory Profile

namespace Catalog

/-- The catalog of a list of profiles; of two under one identifier the later one stays. -/
def ofList (entries : List (String × Profile)) : Catalog := ⟨.ofList entries⟩

/-- The profile that an identifier means. -/
def get? (c : Catalog) (id : String) : Option Profile :=
  match c.profiles.get? id with
  | some p => some p
  | none => (c.profiles.entries.find? (fun e => equalUpToCase e.1 id)).map (·.2)

/-- Whether an identifier means a profile. -/
def contains (c : Catalog) (id : String) : Bool := (c.get? id).isSome

/-- The identifiers, in order. -/
def ids (c : Catalog) : List String := c.profiles.names

/-- How many profiles there are. -/
def size (c : Catalog) : Nat := c.profiles.size

end Catalog

end Provisioning
