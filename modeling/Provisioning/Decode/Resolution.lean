import Provisioning.Context.Basic
import Provisioning.Decode.Failure
import Provisioning.Decode.Settings
import Provisioning.Journal
import Provisioning.Schema.Build
import Provisioning.TypeName

/-!
# Resolving the tags of a document

A traversal from the root down meets every tag before its content, and every key before its value. A tag that
names a type is looked up; once its content is resolved the node is built as that type, checked for keys that
the type skips, and replaced by its content without them. Core tags are dropped, all others kept.
`resolveRoot` leaves the type tag of the root itself to the caller.
-/

namespace Provisioning

/-- What a traversal needs to know. -/
structure Surroundings where
  schema : Schema
  context : Context
  settings : Settings

namespace Surroundings

variable (s : Surroundings)

/-- Looks up the name in a tag at a place. -/
def lookUp (name : String) (place : Place) : Traced DecodeFailure Descriptor :=
  match s.context.resolve name with
  | some d => ⟨[.lookedUp name true], .ok d⟩
  | none => ⟨[.lookedUp name false], .error (.unresolved name place s.context.typeNames)⟩

/-- Builds a node as a type. -/
def build (decl : TypeDecl) (node : Tree) : Except DecodeFailure (Built Instance) :=
  match s.schema.build node decl.shape with
  | .ok built => .ok built
  | .error reason => .error (.unbuildable decl.name reason)

/-- Applies strictness to the keys that a build skipped, and gives the node without those dropped. -/
def accept (typeName : String) (place : Place) (node : Tree) (skipped : List KeyPath) :
    Traced DecodeFailure Tree :=
  if skipped.isEmpty then pure node
  else
    let paths := place.qualifyAll skipped
    if s.settings.strict then .fail (.unknownFields typeName paths)
    else
      ⟨[.droppedUnknownFields typeName paths],
        .ok (skipped.foldl (fun t path => t.remove path) node)⟩

/-- Builds a node and applies strictness. A tolerant build that fails on a node with keys that are not text
is tried once more without them. -/
def buildChecked (typeName : String) (place : Place)
    (build : Tree → Except DecodeFailure (Built Instance)) (node : Tree) :
    Traced DecodeFailure (Instance × Tree) :=
  match build node with
  | .ok built => do
    let rest ← s.accept typeName place node built.skipped
    pure (built.value, rest)
  | .error failure =>
    if !s.settings.strict && node.hasOtherKeys then do
      .note (.droppedOtherKeys typeName (place.qualifyAll node.otherKeyPaths))
      let cleaned := node.withTextKeys
      let built ← .ofExcept (build cleaned)
      let rest ← s.accept typeName place cleaned built.skipped
      pure (built.value, rest)
    else .fail failure

/-- Builds a tagged node below the root, and gives what is left of its content. -/
def buildNested (d : Descriptor) (place : Place) (content : Tree) : Traced DecodeFailure Tree := do
  .note (.resolvedNode d.name place.describe)
  let built ← s.buildChecked d.name place
    (fun node => (s.build d.decl node).mapError (.nested d.name place)) content
  pure built.2

/-- Fails below the deepest level allowed. -/
def checkDepth (depth : Nat) (place : Place) : Traced DecodeFailure Unit :=
  if s.settings.maxDepth < depth then .fail (.tooDeep s.settings.maxDepth place) else pure ()

mutual

/-- Resolves every tag in a node at a depth and a place. -/
def resolveNode (depth : Nat) (place : Place) (node : Tree) : Traced DecodeFailure Tree := do
  s.checkDepth depth place
  match node with
  | .tagged tag content =>
    match TagRole.ofTag tag with
    | .core => resolveNode (depth + 1) place content
    | .variant => do
      let content ← resolveNode (depth + 1) place content
      pure (.tagged tag content)
    | .type name => do
      let d ← s.lookUp name place
      let content ← resolveNode (depth + 1) place content
      s.buildNested d place content
  | .map entries => do
    let entries ← resolveEntries (depth + 1) place [] entries
    pure (.map entries)
  | .list items => do
    let items ← resolveItems (depth + 1) place 0 items
    pure (.list items)
  | scalar => pure scalar
termination_by structural node

/-- Resolves the items of a list, the first of which stands at `position`. -/
def resolveItems (depth : Nat) (place : Place) (position : Nat) :
    List Tree → Traced DecodeFailure (List Tree)
  | [] => pure []
  | t :: ts => do
    let first ← resolveNode depth (place.item position) t
    let rest ← resolveItems depth place (position + 1) ts
    pure (first :: rest)

/-- Resolves map entries after those already `done`. A key is resolved at the place of its map; of two keys
that become equal the later value stays, at the earlier place. -/
def resolveEntries (depth : Nat) (place : Place) (done : List (Tree × Tree)) :
    List (Tree × Tree) → Traced DecodeFailure (List (Tree × Tree))
  | [] => pure done
  | (k, v) :: rest => do
    let key ← resolveNode depth place k
    let value ← resolveNode depth (place.entry key.label) v
    resolveEntries depth place (Tree.insert key value done) rest

end

/-- A document whose tags are resolved, but for a type tag at its root. -/
inductive ResolvedRoot
  | typed (descriptor : Descriptor) (content : Tree)
  | plain (tree : Tree)

/-- Resolves the tags of a document. The root's own tag is no deeper than the root. -/
def resolveRoot (document : Tree) : Traced DecodeFailure ResolvedRoot :=
  match document with
  | .tagged tag content =>
    match TagRole.ofTag tag with
    | .core => do
      let content ← s.resolveNode 1 .root content
      pure (.plain content)
    | .variant => do
      let content ← s.resolveNode 1 .root content
      pure (.plain (.tagged tag content))
    | .type name => do
      let d ← s.lookUp name .root
      let content ← s.resolveNode 1 .root content
      pure (.typed d content)
  | document => do
    let tree ← s.resolveNode 0 .root document
    pure (.plain tree)

end Surroundings

end Provisioning
