import Provisioning.Context.Layer
import Provisioning.Decode.Decoder
import Provisioning.Profile.Catalog

/-!
# Profiles as documents

The types under which profiles and catalogs stand in documents, the context that knows them, and the way
between a `Profile` and the instance that a document is built into.
-/

namespace Provisioning

namespace Profile

/-- The fields of a profile document. All of them may be missing. -/
def fields : List Field := [
  { name := "label", shape := .text, fallback := some (.text "") },
  { name := "prefix", shape := .text, fallback := some (.text "") },
  { name := "primary_role", shape := .text, fallback := some (.text "") },
  { name := "secondary_role", shape := .text, fallback := some (.text "") },
  { name := "pool", shape := .text, fallback := some (.text "") },
  { name := "contact", shape := .optional .text, fallback := some .absent },
  { name := "contact_notes", shape := .optional .text, fallback := some .absent },
  { name := "allowed_classes", shape := .distinct .text, fallback := some (.list []) },
  { name := "allow_suffix", shape := .flag, fallback := some (.flag false) },
  { name := "requires_primary_role", shape := .flag, fallback := some (.flag true) },
  { name := "requires_secondary_role", shape := .flag, fallback := some (.flag false) },
  { name := "requires_pool", shape := .flag, fallback := some (.flag true) }]

/-- A text that may be absent, as an instance. -/
def optionalText : Option String → Instance
  | none => .absent
  | some s => .text s

/-- A profile as an instance. -/
def toInstance (p : Profile) : Instance :=
  .record [
    ("label", .text p.label),
    ("prefix", .text p.assetPrefix),
    ("primary_role", .text p.primaryRole),
    ("secondary_role", .text p.secondaryRole),
    ("pool", .text p.pool),
    ("contact", optionalText p.contact),
    ("contact_notes", optionalText p.contactNotes),
    ("allowed_classes", .list (p.allowedClasses.names.map .text)),
    ("allow_suffix", .flag p.allowSuffix),
    ("requires_primary_role", .flag p.requiresPrimaryRole),
    ("requires_secondary_role", .flag p.requiresSecondaryRole),
    ("requires_pool", .flag p.requiresPool)]

/-- The text of an instance. -/
def textOf? : Instance → Option String
  | .text s => some s
  | _ => none

/-- The text of an instance that may be absent. -/
def optionalTextOf? : Instance → Option (Option String)
  | .absent => some none
  | .text s => some (some s)
  | _ => none

/-- The profile that an instance stands for. -/
def ofInstance? : Instance → Option Profile
  | .record [
      ("label", .text label),
      ("prefix", .text assetPrefix),
      ("primary_role", .text primaryRole),
      ("secondary_role", .text secondaryRole),
      ("pool", .text pool),
      ("contact", contact),
      ("contact_notes", contactNotes),
      ("allowed_classes", .list classes),
      ("allow_suffix", .flag allowSuffix),
      ("requires_primary_role", .flag requiresPrimaryRole),
      ("requires_secondary_role", .flag requiresSecondaryRole),
      ("requires_pool", .flag requiresPool)] => do
    let contact ← optionalTextOf? contact
    let contactNotes ← optionalTextOf? contactNotes
    let classes ← classes.mapM textOf?
    some
      { label, assetPrefix, primaryRole, secondaryRole, pool, contact, contactNotes
        allowedClasses := .ofList classes
        allowSuffix, requiresPrimaryRole, requiresSecondaryRole, requiresPool }
  | _ => none

/-- The type of profile documents. -/
def decl : TypeDecl := ⟨"asset.Profile", .record "Profile"⟩

/-- The type of profile documents as a provisioner reads them: the same documents under another name. -/
def provisionerDecl : TypeDecl := ⟨"asset.ProvisionerProfile", .record "Profile"⟩

end Profile

namespace Catalog

/-- The fields of a catalog document. -/
def fields : List Field := [
  { name := "profiles", shape := .dictionary (.record "Profile")
    fallback := some (.dictionary []) }]

/-- A catalog as an instance. -/
def toInstance (c : Catalog) : Instance :=
  .record [("profiles", .dictionary (c.profiles.entries.map fun e => (e.1, e.2.toInstance)))]

/-- The catalog that an instance stands for. -/
def ofInstance? : Instance → Option Catalog
  | .record [("profiles", .dictionary entries)] => do
    let profiles ← entries.mapM fun e => do
      let p ← Profile.ofInstance? e.2
      some (e.1, p)
    some (.ofList profiles)
  | _ => none

/-- The type of catalog documents. -/
def decl : TypeDecl := ⟨"asset.ProfileCatalog", .record "ProfileCatalog"⟩

end Catalog

/-- The declarations of profiles and catalogs, over those of other records. -/
def Schema.withProfiles (others : Schema) : Schema where
  fields name :=
    if name = "Profile" then Profile.fields
    else if name = "ProfileCatalog" then Catalog.fields
    else others.fields name
  variants := others.variants

/-- The declarations of profiles and catalogs alone. -/
def Schema.profiles : Schema := Schema.withProfiles ⟨fun _ => [], fun _ => []⟩

/-- The context that knows profiles and catalogs; they are at home in it. -/
def Context.builtin : Context :=
  (Layer.ofDescriptors
    [.own Profile.decl, .own Profile.provisionerDecl, .own Catalog.decl] none).toContext

end Provisioning
