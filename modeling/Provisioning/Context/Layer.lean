import Provisioning.Context.Basic
import Provisioning.TypeName
import Provisioning.Fault

/-!
# Layers of registered types

`Layer.build` registers descriptors in order over a parent. It accepts all of them or none, and then names
every problem it met.
-/

namespace Provisioning

/-- Why a type cannot be registered. -/
inductive RegistrationProblem
  | badName (problem : TypeName.Problem)
  /-- A list of registrations holds the name before. -/
  | registeredTwice (name : String)
  /-- The name is in use. -/
  | alreadyRegistered (name : String)
deriving DecidableEq, Repr

namespace RegistrationProblem

/-- The wording of a problem. -/
def message : RegistrationProblem → String
  | .badName problem => problem.message
  | .registeredTwice name => "type `" ++ name ++ "` is registered twice"
  | .alreadyRegistered name => "type `" ++ name ++ "` is already registered"

end RegistrationProblem

/-- The fault of registrations that cannot be made. -/
def Fault.ofRegistration (problems : List RegistrationProblem) : Fault :=
  { kind := .initialization, message := "; ".intercalate (problems.map (·.message)) }

/-- Registered types over a parent. -/
structure Layer where
  types : Directory Descriptor
  parent : Option Context

namespace Layer

/-- The layer as a context. -/
def toContext (l : Layer) : Context := .layer l.types (l.parent.getD .nothing)

/-- A layer of descriptors, each under its own name; of two under one name the later one stays. -/
def ofDescriptors (descriptors : List Descriptor) (parent : Option Context) : Layer :=
  ⟨.ofList (descriptors.map fun d => (d.name, d)), parent⟩

/-- Registers descriptors after those already accepted, and gives the problems met. -/
def collect (types : Directory Descriptor) :
    List Descriptor → Directory Descriptor × List RegistrationProblem
  | [] => (types, [])
  | d :: ds =>
    match TypeName.problem? d.name with
    | some problem =>
      let (types, problems) := collect types ds
      (types, .badName problem :: problems)
    | none =>
      if types.contains d.name then
        let (types, problems) := collect types ds
        (types, .registeredTwice d.name :: problems)
      else collect (types.insert d.name d) ds

/-- The layer of a list of registrations, or all that is wrong with them. -/
def build (descriptors : List Descriptor) (parent : Option Context) :
    Except (List RegistrationProblem) Layer :=
  match collect .empty descriptors with
  | (types, []) => .ok ⟨types, parent⟩
  | (_, problems) => .error problems

end Layer

end Provisioning
