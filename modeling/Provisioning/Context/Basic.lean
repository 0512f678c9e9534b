import Provisioning.Schema.Basic
import Provisioning.Directory

/-!
# Resolution contexts

A context says which type a name stands for. It is a stack of layers, the nearest of which wins, over a
parent of any sort; a context may keep its names to itself, or be watched by a tally of look-ups.
`Context.resolve` is the look-up, `Context.typeNames` the names a context lists.
-/

namespace Provisioning

/-- A type that documents can be decoded as: its own name, and the shape of what it accepts. -/
structure TypeDecl where
  name : String
  shape : Shape
deriving DecidableEq, Repr, Inhabited

/-- A type under the name it was found by. -/
structure Descriptor where
  name : String
  decl : TypeDecl
deriving DecidableEq, Repr, Inhabited

namespace Descriptor

/-- A type under its own name. -/
def own (decl : TypeDecl) : Descriptor := ⟨decl.name, decl⟩

/-- Whether this is the given type, under whatever name. -/
def isOf (d : Descriptor) (decl : TypeDecl) : Bool := d.decl == decl

end Descriptor

/-- What names stand for. -/
inductive Context
  /-- Knows no name. -/
  | nothing
  /-- Registered types, and for all other names the parent. -/
  | layer (types : Directory Descriptor) (parent : Context)
  /-- A look-up of any kind, with the names that it lists. -/
  | custom (lookup : String → Option Descriptor) (names : List String)
  /-- Resolves like another context and lists no names. -/
  | unlisted (inner : Context)
  /-- Resolves and lists like another context; a tally notes each look-up. -/
  | watched (tally : Nat) (inner : Context)

namespace Context

instance : Inhabited Context := ⟨.nothing⟩

/-- The type that a name stands for. -/
def resolve : Context → String → Option Descriptor
  | .nothing, _ => none
  | .layer types parent, name =>
    match types.get? name with
    | some d => some d
    | none => parent.resolve name
  | .custom lookup _, name => lookup name
  | .unlisted inner, name => inner.resolve name
  | .watched _ inner, name => inner.resolve name

/-- The names a context lists. A layer lists its own and the parent's that it does not shadow, sorted. -/
def typeNames : Context → List String
  | .nothing => []
  | .layer types parent =>
    (types.names ++ parent.typeNames.filter (fun n => !types.contains n)).mergeSort
      (fun a b => decide (a ≤ b))
  | .custom _ names => names
  | .unlisted _ => []
  | .watched _ inner => inner.typeNames

/-- The tallies that note a look-up of a name, with whether it was found there. -/
def watchers : Context → String → List (Nat × Bool)
  | .layer types parent, name => if types.contains name then [] else parent.watchers name
  | .unlisted inner, name => inner.watchers name
  | .watched tally inner, name => inner.watchers name ++ [(tally, (inner.resolve name).isSome)]
  | _, _ => []

end Context

end Provisioning
