import Provisioning.Context.Layer
import Provisioning.Journal

/-!
# Plugins

Types that come and go at run time. A snapshot freezes those that are registered into a layer, which no
later call changes.
-/

namespace Provisioning

/-- The types registered at the moment, and the parent of every snapshot. -/
structure Plugins where
  types : Directory Descriptor
  parent : Option Context

namespace Plugins

/-- No types, over a parent. -/
def ofParent (parent : Option Context) : Plugins := ⟨.empty, parent⟩

/-- Registers a type under the name of its descriptor, if that is a type name and free. -/
def register (p : Plugins) (d : Descriptor) : Except RegistrationProblem Plugins :=
  match TypeName.problem? d.name with
  | some problem => .error (.badName problem)
  | none =>
    if p.types.contains d.name then .error (.alreadyRegistered d.name)
    else .ok { p with types := p.types.insert d.name d }

/-- Registers a type and notes it. -/
def registerNoting (p : Plugins) (d : Descriptor) : Traced Fault Plugins :=
  match p.register d with
  | .ok q => ⟨[.registered d.name], .ok q⟩
  | .error problem => .fail (.ofRegistration [problem])

/-- Registers types one after another, up to the first that cannot be. -/
def registerAll (p : Plugins) : List Descriptor → Traced Fault Plugins
  | [] => pure p
  | d :: ds => do
    let q ← p.registerNoting d
    q.registerAll ds

/-- Forgets a name, and tells whether it was registered. -/
def unregister (p : Plugins) (name : String) : Plugins × Bool :=
  ({ p with types := p.types.erase name }, p.types.contains name)

/-- The types registered now, as a context of their own. -/
def snapshot (p : Plugins) : Context :=
  (Layer.ofDescriptors p.types.values p.parent).toContext

end Plugins

end Provisioning
