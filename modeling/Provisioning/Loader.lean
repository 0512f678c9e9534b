import Provisioning.Input.Folder
import Provisioning.Profile.Types

/-!
# Loading profiles and catalogs

A loader knows how each kind of document is decoded and in which context. A document is loaded from a stream, or from
a path: then it is opened first, and every fault met from there on names the path. The loader checks nothing about
what a profile says; see `verify`.
-/

namespace Provisioning

/-- The instance that a decode of a root type gave. -/
def Decoded.instance? : Decoded → Option Instance
  | .built value => some value
  | _ => none

/-- How documents are loaded. -/
structure Loader where
  /-- The declarations of all types that a context may know. -/
  schema : Schema := .profiles
  /-- The context for documents, if it is not the one that their types are at home in. -/
  context : Option Context := none
  privileged : Settings := .rejecting
  provisioner : Settings := .tolerant
  catalog : Settings := .tolerant

namespace Loader

/-- The decoder of a document kind. A context given for this document wins over the loader's. -/
def decoder (l : Loader) (decl : TypeDecl) (context : Option Context) (settings : Settings) :
    Decoder :=
  { root := .type decl, context := (context.or l.context).getD .builtin, settings }

/-- Loads a document from a stream; `convert` makes what it stands for out of its instance. Every instance of a
document type stands for something, so `orElse` only makes the function total. -/
def loadWith {α : Type} (l : Loader) (d : Decoder) (convert : Instance → Option α) (orElse : α)
    (s : Stream) : Traced Fault α := do
  let decoded ← d.decodeStream l.schema s
  pure ((decoded.instance?.bind convert).getD orElse)

/-- Loads a profile; keys that it does not know are refused. -/
def loadPrivileged (l : Loader) (s : Stream) : Traced Fault Profile :=
  l.loadWith (l.decoder Profile.decl none l.privileged) Profile.ofInstance? {} s

/-- Loads a profile for a provisioner; keys that it does not know are dropped. -/
def loadProvisioner (l : Loader) (context : Option Context) (s : Stream) : Traced Fault Profile :=
  l.loadWith (l.decoder Profile.provisionerDecl context l.provisioner) Profile.ofInstance? {} s

/-- Loads a catalog. -/
def loadCatalog (l : Loader) (s : Stream) : Traced Fault Catalog :=
  l.loadWith (l.decoder Catalog.decl none l.catalog) Catalog.ofInstance? ⟨.empty⟩ s

/-! ## Paths -/

/-- Opens the document at a path and loads it. Without a path nothing is opened. -/
def atPath {α : Type} (files : Files) (decl : TypeDecl) (load : Stream → Traced Fault α)
    (path : Option String) : Traced Fault α :=
  match path with
  | none =>
    .fail
      { kind := .notFound
        message := "no document path given for `" ++ decl.name ++ "`" }
  | some path => do
    .note (.opening path)
    match files path with
    | .ok s => (load s).mapError (·.withDocument path)
    | .error failure => .fail ((Fault.ofIo failure).withDocument path)

/-- Loads a profile from a path. -/
def loadPrivilegedAt (l : Loader) (files : Files) (path : Option String) : Traced Fault Profile :=
  atPath files Profile.decl l.loadPrivileged path

/-- Loads a profile for a provisioner from a path. -/
def loadProvisionerAt (l : Loader) (files : Files) (path : Option String)
    (context : Option Context) : Traced Fault Profile :=
  atPath files Profile.provisionerDecl (l.loadProvisioner context) path

/-- Loads a catalog from a path and notes its size. -/
def loadCatalogAt (l : Loader) (files : Files) (path : Option String) : Traced Fault Catalog := do
  let c ← atPath files Catalog.decl l.loadCatalog path
  .note (.catalogLoaded c.size)
  pure c

end Loader

end Provisioning
