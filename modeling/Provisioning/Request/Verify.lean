import Provisioning.Request.Basic
import Provisioning.Journal

/-!
# Verifying requests

`verify` merges a request with the profile it is made under, or rejects it with every rule that it breaks:
first the suffix, then the attributes in their order, then the class.
-/

namespace Provisioning

/-- What an accepted asset gets. -/
structure Effective where
  pool : Option String := none
  primaryRole : Option String := none
  secondaryRole : Option String := none
  suffix : Option String := none
deriving DecidableEq, Repr, Inhabited

namespace Effective

/-- The value of an attribute. -/
def get (e : Effective) : Attribute → Option String
  | .pool => e.pool
  | .secondaryRole => e.secondaryRole
  | .primaryRole => e.primaryRole

end Effective

/-- What becomes of one attribute: a value that may be absent, or a broken rule. -/
def settle (p : Profile) (r : Request) (a : Attribute) : Except Violation (Option String) :=
  match r.specified a, p.provides a with
  | some _, some _ => .error (.notConfigurable a)
  | some value, none => .ok (some value)
  | none, none => if p.requires a then .error (.required a) else .ok none
  | none, fixed => .ok fixed

/-- The rule about one attribute that a request breaks. -/
def attributeViolation? (p : Profile) (r : Request) (a : Attribute) : Option Violation :=
  match settle p r a with
  | .error v => some v
  | .ok _ => none

/-- The value of an attribute about which no rule is broken. -/
def settledValue (p : Profile) (r : Request) (a : Attribute) : Option String :=
  match settle p r a with
  | .error _ => none
  | .ok value => value

/-- The rule about suffixes, if a request breaks it. -/
def suffixViolation? (p : Profile) (r : Request) : Option Violation :=
  if r.suffix.isSome && !p.allowSuffix then some .suffixNotAllowed else none

/-- The rule about classes, if a request breaks it. -/
def classViolation? (p : Profile) (r : Request) : Option Violation :=
  match r.assetClass with
  | some name => if p.permitsClass name then none else some (.classNotAllowed name)
  | none => none

/-- All rules that a request breaks, in order. -/
def violations (p : Profile) (r : Request) : List Violation :=
  (suffixViolation? p r).toList ++ Attribute.all.filterMap (attributeViolation? p r)
    ++ (classViolation? p r).toList

/-- Merges a request with a profile, or rejects it. -/
def verify (p : Profile) (r : Request) : Except Rejection Effective :=
  match violations p r with
  | [] =>
    .ok
      { pool := settledValue p r .pool
        primaryRole := settledValue p r .primaryRole
        secondaryRole := settledValue p r .secondaryRole
        suffix := r.suffix }
  | broken => .error ⟨r.profileId, broken⟩

/-- Verifies a request and notes the verdict. -/
def verifyNoting (p : Profile) (r : Request) : Traced Rejection Effective :=
  match verify p r with
  | .ok e => ⟨[.requestAccepted r.profileId], .ok e⟩
  | .error rejection =>
    ⟨[.requestRejected r.profileId rejection.violations.length], .error rejection⟩

end Provisioning
