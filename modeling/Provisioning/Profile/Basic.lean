import Provisioning.Profile.ClassList

/-!
# Profiles

A profile says what an asset provisioned under it must have: values that it fixes, and attributes that are
required. A value that is the empty text fixes nothing. Whether requirements and values fit together is
asked only when a request is verified.
-/

namespace Provisioning

/-- What a profile or a request may say about an asset. -/
inductive Attribute
  | pool
  | secondaryRole
  | primaryRole
deriving DecidableEq, Repr, Inhabited

namespace Attribute

/-- All attributes, in the order in which requests are checked. -/
def all : List Attribute := [.pool, .secondaryRole, .primaryRole]

/-- The name of an attribute in messages. -/
def text : Attribute → String
  | .pool => "Pool"
  | .secondaryRole => "Secondary role"
  | .primaryRole => "Primary role"

end Attribute

/-- A text that says something. -/
def nonEmpty? (s : String) : Option String := if s = "" then none else some s

/-- The policy for the assets provisioned under it. -/
structure Profile where
  label : String := ""
  /-- What the identifiers of its assets begin with. -/
  assetPrefix : String := ""
  primaryRole : String := ""
  secondaryRole : String := ""
  pool : String := ""
  contact : Option String := none
  contactNotes : Option String := none
  allowedClasses : ClassList := .unrestricted
  allowSuffix : Bool := false
  requiresPrimaryRole : Bool := true
  requiresSecondaryRole : Bool := false
  requiresPool : Bool := true
deriving DecidableEq, Inhabited

namespace Profile

/-- The value that the profile fixes for an attribute. -/
def provides (p : Profile) : Attribute → Option String
  | .pool => nonEmpty? p.pool
  | .secondaryRole => nonEmpty? p.secondaryRole
  | .primaryRole => nonEmpty? p.primaryRole

/-- Whether an asset must have a value for an attribute. -/
def requires (p : Profile) : Attribute → Bool
  | .pool => p.requiresPool
  | .secondaryRole => p.requiresSecondaryRole
  | .primaryRole => p.requiresPrimaryRole

/-- The attributes that are required and not fixed: a request has to supply them. -/
def missingRequirements (p : Profile) : List Attribute :=
  Attribute.all.filter fun a => p.requires a && (p.provides a).isNone

/-- Whether a class may be provisioned under the profile. -/
def permitsClass (p : Profile) (name : String) : Bool := p.allowedClasses.permits name

/-- Whether some classes may not be provisioned under the profile. -/
def isClassRestricted (p : Profile) : Bool := !p.allowedClasses.isUnrestricted

end Profile

end Provisioning
