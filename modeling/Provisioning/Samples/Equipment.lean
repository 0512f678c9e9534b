import Provisioning.Profile.Types

/-!
# Sample types

A small inventory of racks and machines, as a vendor might add it to the types of this library. Between them
the types use every shape: other keys for a field, fallbacks, absent values, lists, dictionaries, variants of all
sorts, and a record that holds itself.
-/

namespace Provisioning.Samples

/-- The fields of the sample records. -/
def fields : String → List Field
  | "RackProfile" => [
      { name := "label", shape := .text },
      { name := "rack_units", shape := .unsigned 32 },
      { name := "shared", shape := .flag, fallback := some (.flag false) },
      { name := "location", aliases := ["site"], shape := .optional .text
        fallback := some .absent, elided := true }]
  | "PowerProfile" => [
      { name := "label", shape := .text },
      { name := "circuits", shape := .unsigned 8 }]
  | "CoolingProfile" => [
      { name := "label", shape := .text }]
  | "Disk" => [
      { name := "size_gb", shape := .unsigned 64 },
      { name := "ssd", shape := .flag, fallback := some (.flag false) }]
  | "Server" => [
      { name := "name", shape := .text },
      { name := "disks", shape := .list (.record "Disk") }]
  | "Port" => [
      { name := "speed", shape := .unsigned 32 }]
  | "Nic" => [
      { name := "name", shape := .text },
      { name := "vlan", shape := .optional (.unsigned 32), fallback := some .absent, elided := true },
      { name := "mac", aliases := ["mac_address"], shape := .text, fallback := some (.text "") },
      { name := "firmware", shape := .text, fallback := some (.text "") },
      { name := "ports", shape := .list (.record "Port"), fallback := some (.list []) }]
  | "Drive" => [
      { name := "bay", shape := .unsigned 32 },
      { name := "media", shape := .choice "Media" }]
  | "Node" => [
      { name := "name", shape := .text, fallback := some (.text "") },
      { name := "child", shape := .optional (.record "Node"), fallback := some .absent },
      { name := "kids", shape := .list (.record "Node"), fallback := some (.list []) },
      { name := "attrs", shape := .dictionary .text, fallback := some (.dictionary []) },
      { name := "profile", shape := .optional (.record "Profile"), fallback := some .absent }]
  | _ => []

/-- The variants of the sample choices. -/
def variants : String → List (String × Payload)
  | "Media" => [
      ("Empty", .nothing),
      ("Hdd", .one (.unsigned 32)),
      ("Ssd", .fields [{ name := "size_gb", shape := .unsigned 32 }]),
      ("Raid", .several [.unsigned 32, .record "Disk"]),
      ("Wrapped", .one (.record "Disk"))]
  | _ => []

/-- The sample declarations beside those of profiles. -/
def schema : Schema := Schema.withProfiles ⟨fields, variants⟩

/-- A rack. -/
def rack : TypeDecl := ⟨"acme.RackProfile", .record "RackProfile"⟩

/-- A power circuit profile. -/
def power : TypeDecl := ⟨"acme.PowerProfile", .record "PowerProfile"⟩

/-- A cooling profile; it is at home in a context of its own. -/
def cooling : TypeDecl := ⟨"acme.CoolingProfile", .record "CoolingProfile"⟩

/-- A disk. -/
def disk : TypeDecl := ⟨"test.Disk", .record "Disk"⟩

/-- A machine with its disks. -/
def server : TypeDecl := ⟨"test.Server", .record "Server"⟩

/-- A network card. -/
def nic : TypeDecl := ⟨"test.Nic", .record "Nic"⟩

/-- Storage of one of several sorts. -/
def media : TypeDecl := ⟨"test.Media", .choice "Media"⟩

/-- A bay with what is in it. -/
def drive : TypeDecl := ⟨"test.Drive", .record "Drive"⟩

/-- A disk under another type name. -/
def wrapped : TypeDecl := ⟨"test.Wrapped", .record "Disk"⟩

/-- A record that holds records of its own type. -/
def node : TypeDecl := ⟨"test.Node", .record "Node"⟩

/-- The sample types and those of profiles. -/
def types : List TypeDecl :=
  [Profile.decl, Profile.provisionerDecl, Catalog.decl, rack, power, cooling, disk, server, nic,
    media, drive, wrapped, node]

/-- The context that knows the cooling profile alone. -/
def coolingHome : Context := (Layer.ofDescriptors [.own cooling] none).toContext

/-- Whether a type is at home in the built-in context. -/
def isBuiltin (decl : TypeDecl) : Bool :=
  decl == Profile.decl || decl == Profile.provisionerDecl || decl == Catalog.decl

/-- The context that a type is at home in, if it has one. -/
def homeContext (decl : TypeDecl) : Option Context :=
  if isBuiltin decl then some .builtin
  else if decl = cooling then some coolingHome
  else none

end Provisioning.Samples
