import Provisioning.Profile.Basic
import Provisioning.Fault

/-!
# Provision requests

A request names the profile it is made under and what it asks for; an empty text asks for nothing. A request
that breaks rules of the profile is rejected with all its violations.
-/

namespace Provisioning

/-- What someone asks for. -/
structure Request where
  profileId : String
  assetClass? : Option String := none
  pool? : Option String := none
  primaryRole? : Option String := none
  secondaryRole? : Option String := none
  suffix? : Option String := none
deriving DecidableEq, Repr, Inhabited

namespace Request

/-- The class asked for. -/
def assetClass (r : Request) : Option String := r.assetClass?.bind nonEmpty?

/-- The suffix asked for. -/
def suffix (r : Request) : Option String := r.suffix?.bind nonEmpty?

/-- The value asked for an attribute. -/
def specified (r : Request) : Attribute → Option String
  | .pool => r.pool?.bind nonEmpty?
  | .secondaryRole => r.secondaryRole?.bind nonEmpty?
  | .primaryRole => r.primaryRole?.bind nonEmpty?

end Request

/-- A rule of a profile that a request breaks. -/
inductive Violation
  | suffixNotAllowed
  | notConfigurable (of : Attribute)
  | required (of : Attribute)
  | classNotAllowed (name : String)
deriving DecidableEq, Repr, Inhabited

namespace Violation

/-- The wording of a violation. -/
def message : Violation → String
  | .suffixNotAllowed => "Suffix not allowed"
  | .notConfigurable a => a.text ++ " is not user configurable"
  | .required a => a.text ++ " is required"
  | .classNotAllowed name => "Asset class '" ++ name ++ "' is not allowed"

end Violation

/-- The refusal of a request, with the profile it was made under. -/
structure Rejection where
  profile : String
  violations : List Violation
deriving DecidableEq, Repr, Inhabited

namespace Rejection

/-- Whether a violation is among the reasons. -/
def contains (r : Rejection) (v : Violation) : Bool := r.violations.contains v

/-- The wording of a refusal. -/
def message (r : Rejection) : String :=
  "request rejected for profile '" ++ r.profile ++ "'" ++
    match r.violations with
    | [] => ""
    | vs => ": " ++ "; ".intercalate (vs.map (·.message))

/-- A refusal on one line of a log. -/
def logText (r : Rejection) : String :=
  "request_rejected: profile=" ++ r.profile ++
    " violations=[" ++ "; ".intercalate (r.violations.map (·.message)) ++ "]"

/-- The fault of a refusal. -/
def toFault (r : Rejection) : Fault := ⟨.verification, r.message, none, [.foreign r.message]⟩

end Rejection

end Provisioning
